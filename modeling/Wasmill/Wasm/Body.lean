import Wasmill.Wasm.Opcode

/-! Function bodies: runs of local declarations, then operators.

A `Body` hands out operators one by one once its locals have been read. -/
namespace Wasmill.Wasm

structure Body where
  start : Cursor
  /-- The place of the next operator, once the locals are read. -/
  ops : Option Cursor := none

namespace Body

/-- A body whose first byte lies at `offset` in the module. -/
def ofBytes (bytes : ByteArray) (offset : Nat) : Body := { start := .ofBytes bytes offset }

/-- A run of locals of one type. -/
def localRun : Read (Nat × Ty) := do
  let count ← Read.u32
  return (count, ← Ty.read)

/-- A run of locals that can be compiled. -/
def compiledRun : Read (Nat × ValType) := do
  let (count, ty) ← localRun
  return (count, ← ty.compiled)

def localRuns : Read (Array (Nat × ValType)) := do
  let count ← Read.u32
  Read.many compiledRun count #[]

/-- The local declarations; afterwards operators can be read. -/
def readLocals (b : Body) : Except Error (Array (Nat × ValType)) × Body :=
  match localRuns b.start with
  | (.ok runs, c) => (.ok runs, { b with ops := some c })
  | (.error e, _) => (.error e, b)

def readOp (b : Body) : Except Error Operator × Body :=
  match b.ops with
  | none => (.error (.internal .operatorsBeforeLocals), b)
  | some c =>
    let (op, c) := Operator.read c
    (op, { b with ops := some c })

/-- Whether all operators have been read. -/
def isDone (b : Body) : Bool := b.ops.any (·.atEnd)

/-- The module offset of the next operator, or of the body before its locals are read. -/
def offset (b : Body) : Nat :=
  match b.ops with
  | some c => c.offset
  | none => b.start.offset

end Body
end Wasmill.Wasm

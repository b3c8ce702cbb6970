import Wasmill.Wasm.Operator

/-! The immediates of operators, and readers for operators with simple ones.

An opcode is a reader of what follows it. -/
namespace Wasmill.Wasm

def MemArg.read : Read MemArg := do
  let place ← Read.offset
  let flags ← Read.u32
  let many := flags.testBit 6
  let memory ← if many then Read.u32 else pure 0
  let align := if many then flags - 64 else flags
  if align ≥ 64 then Read.rejectAt place "malformed memop alignment"
  else
    let offset ← Read.u64
    return ⟨align, memory, offset⟩

def BlockType.read : Read BlockType := do
  let b ← Read.peek
  if b = 0x40 then
    let _ ← Read.byte
    return .empty
  else if startsTy b then return .value (← Ty.read)
  else
    let index ← Read.s33
    if index < 0 then Read.reject "invalid function type"
    else return .func index.toNat

def CatchClause.read : Read CatchClause := do
  match ← Read.byte with
  | 0 => do let tag ← Read.u32; return ⟨some tag, false, ← Read.u32⟩
  | 1 => do let tag ← Read.u32; return ⟨some tag, true, ← Read.u32⟩
  | 2 => return ⟨none, false, ← Read.u32⟩
  | 3 => return ⟨none, true, ← Read.u32⟩
  | _ => Read.reject "invalid leading byte in catch"

namespace Opcode

/-- The number of a lane, of which there are `lanes`. -/
def lane (lanes : Nat) : Read Nat := do
  let index ← Read.byte
  if index < lanes then return index else Read.reject "invalid lane index"

/-- An operator that is checked only and has no immediates. -/
def bare (name : String) (what : Extra) : Read Operator := return .extra name what

def plain (name : String) (pops pushes : List ValType) : Read Operator :=
  bare name (.plain pops pushes)

/-- An operator that is checked only and has one number. -/
def indexed (name : String) (what : Nat → Extra) : Read Operator := do
  let index ← Read.u32
  return .extra name (what index)

/-- An operator that is checked only and has two numbers. -/
def indexed2 (name : String) (what : Nat → Nat → Extra) : Read Operator := do
  let a ← Read.u32
  let b ← Read.u32
  return .extra name (what a b)

def access (name : String) (log2 : Nat) (exact : Bool) (pops pushes : List ValType) :
    Read Operator := do
  let arg ← MemArg.read
  return .extra name (.access arg log2 exact pops pushes)

/-- The reader at a place of a table. -/
def select (table : Array (Option (Read Operator))) (code : Nat) : Read Operator :=
  match (table[code]?).join with
  | some reader => reader
  | none => Read.reject s!"unknown opcode {code}"

end Opcode
end Wasmill.Wasm

import Wasmill.Wasm.Opcode.Basic

/-! The atomic operators, in the order of their opcodes after `0xfe`. None of them is compiled. -/
namespace Wasmill.Wasm.Opcode.Atomic

/-- A type and the bytes that are accessed, the latter spelled as in the operator's name. -/
structure Width where
  ty : ValType
  log2 : Nat
  bits : String

def widths : List Width :=
  [⟨.i32, 2, ""⟩, ⟨.i64, 3, ""⟩, ⟨.i32, 0, "8"⟩, ⟨.i32, 1, "16"⟩, ⟨.i64, 0, "8"⟩, ⟨.i64, 1, "16"⟩,
    ⟨.i64, 2, "32"⟩]

def Width.family (w : Width) : String := if w.ty = .i32 then "I32Atomic" else "I64Atomic"

/-- Narrow accesses extend with zeros. -/
def Width.suffix (w : Width) : String := if w.bits.isEmpty then "" else "U"

def load (w : Width) : Read Operator :=
  access (w.family ++ "Load" ++ w.bits ++ w.suffix) w.log2 true [] [w.ty]

def store (w : Width) : Read Operator :=
  access (w.family ++ "Store" ++ w.bits) w.log2 true [w.ty] []

def update (verb : String) (w : Width) : Read Operator :=
  access (w.family ++ "Rmw" ++ w.bits ++ verb ++ w.suffix) w.log2 true [w.ty] [w.ty]

def exchange (w : Width) : Read Operator :=
  access (w.family ++ "Rmw" ++ w.bits ++ "Cmpxchg" ++ w.suffix) w.log2 true [w.ty, w.ty] [w.ty]

def fence : Read Operator := do
  if (← Read.byte) ≠ 0 then Read.reject "nonzero byte after atomic.fence"
  else return .extra "AtomicFence" (.plain [] [])

/-- An operator on shared objects, with its memory order and as many numbers as it has. -/
def shared (numbers : Nat) (name : String) : Read Operator := do
  let order ← Read.u32
  if order > 1 then Read.reject "invalid atomic consistency ordering"
  else
    let _ ← Read.many Read.u32 numbers #[]
    return .extra name .disabled

def sharedNames : List (Nat × String × List String) :=
  let updates := ["RmwAdd", "RmwSub", "RmwAnd", "RmwOr", "RmwXor", "RmwXchg", "RmwCmpxchg"]
  [(1, "Global", ["Get", "Set"] ++ updates),
    (1, "Table", ["Get", "Set", "RmwXchg", "RmwCmpxchg"]),
    (2, "Struct", ["Get", "GetS", "GetU", "Set"] ++ updates),
    (1, "Array", ["Get", "GetS", "GetU", "Set"] ++ updates)]

def table : Array (Option (Read Operator)) :=
  let waiting :=
    [access "MemoryAtomicNotify" 2 true [.i32] [.i32],
      access "MemoryAtomicWait32" 2 true [.i32, .i64] [.i32],
      access "MemoryAtomicWait64" 3 true [.i64, .i64] [.i32], fence]
  let updates := ["Add", "Sub", "And", "Or", "Xor", "Xchg"].flatMap fun verb =>
    widths.map (update verb)
  let onShared := sharedNames.flatMap fun (numbers, noun, verbs) =>
    verbs.map fun verb => shared numbers (noun ++ "Atomic" ++ verb)
  (waiting.map some ++ List.replicate 12 none ++
    (widths.map load ++ widths.map store ++ updates ++ widths.map exchange ++ onShared
      ++ [bare "RefI31Shared" .disabled]).map some).toArray

end Wasmill.Wasm.Opcode.Atomic

import Wasmill.Wasm.Opcode.Basic

/-! The operators of managed objects and of bulk memory, after `0xfb` and `0xfc`. -/
namespace Wasmill.Wasm.Opcode.Managed

/-- An operator on structures or arrays, with as many numbers as it has. -/
def aggregate (numbers : Nat) (name : String) : Option (Read Operator) := some do
  let _ ← Read.many Read.u32 numbers #[]
  return .extra name .aggregate

def heaped (name : String) (what : Heap → Extra) : Option (Read Operator) := some do
  let heap ← Heap.read
  return .extra name (what heap)

def branchOnCast (name : String) (what : Nat → RefType → RefType → Extra) :
    Option (Read Operator) := some do
  let place ← Read.offset
  let flags ← Read.byte
  let depth ← Read.u32
  if flags > 3 then Read.rejectAt place "invalid cast flags"
  else
    let source ← Heap.read
    let target ← Heap.read
    return .extra name (what depth ⟨flags.testBit 0, source⟩ ⟨flags.testBit 1, target⟩)

def table : Array (Option (Read Operator)) :=
  #[aggregate 1 "StructNew", aggregate 1 "StructNewDefault", aggregate 2 "StructGet",
    aggregate 2 "StructGetS", aggregate 2 "StructGetU", aggregate 2 "StructSet",
    aggregate 1 "ArrayNew", aggregate 1 "ArrayNewDefault", aggregate 2 "ArrayNewFixed",
    aggregate 2 "ArrayNewData", aggregate 2 "ArrayNewElem", aggregate 1 "ArrayGet",
    aggregate 1 "ArrayGetS", aggregate 1 "ArrayGetU", aggregate 1 "ArraySet",
    some (bare "ArrayLen" .arrayLen), aggregate 1 "ArrayFill", aggregate 2 "ArrayCopy",
    aggregate 2 "ArrayInitData", aggregate 2 "ArrayInitElem",
    heaped "RefTestNonNull" fun heap => .refTest ⟨false, heap⟩,
    heaped "RefTestNullable" fun heap => .refTest ⟨true, heap⟩,
    heaped "RefCastNonNull" fun heap => .refCast ⟨false, heap⟩,
    heaped "RefCastNullable" fun heap => .refCast ⟨true, heap⟩,
    branchOnCast "BrOnCast" .brOnCast, branchOnCast "BrOnCastFail" .brOnCastFail,
    some (bare "AnyConvertExtern" .anyConvertExtern),
    some (bare "ExternConvertAny" .externConvertAny), some (bare "RefI31" .refI31),
    some (bare "I31GetS" .i31Get), some (bare "I31GetU" .i31Get)]

/-- Saturating truncations come first. -/
def bulk : Array (Option (Read Operator)) :=
  let truncations : List Ssa.ConvertOp :=
    [.i32TruncSatF32S, .i32TruncSatF32U, .i32TruncSatF64S, .i32TruncSatF64U, .i64TruncSatF32S,
      .i64TruncSatF32U, .i64TruncSatF64S, .i64TruncSatF64U]
  (truncations.map (fun op => (pure (Operator.convert op) : Read Operator)) ++
    [indexed2 "MemoryInit" .memoryInit, indexed "DataDrop" .dataDrop,
      indexed2 "MemoryCopy" .memoryCopy, indexed "MemoryFill" .memoryFill,
      indexed2 "TableInit" .tableInit, indexed "ElemDrop" .elemDrop,
      indexed2 "TableCopy" .tableCopy, indexed "TableGrow" .tableGrow,
      indexed "TableSize" .tableSize, indexed "TableFill" .tableFill,
      indexed "MemoryDiscard" fun _ => .disabled, bare "I64Add128" .disabled,
      bare "I64Sub128" .disabled, bare "I64MulWideS" .disabled,
      bare "I64MulWideU" .disabled]).toArray.map some

end Wasmill.Wasm.Opcode.Managed

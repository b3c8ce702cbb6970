import Wasmill.Wasm.Opcode.Basic

/-! The vector operators, in the order of their opcodes after `0xfd`. -/
namespace Wasmill.Wasm.Opcode.Vector

/-- An operator that can be compiled and has no immediates. -/
def now (op : Operator) : Option (Read Operator) := some (pure op)

def one (name : String) : Option (Read Operator) := some (plain name [.v128] [.v128])

def two (name : String) : Option (Read Operator) := some (plain name [.v128, .v128] [.v128])

def three (name : String) : Option (Read Operator) :=
  some (plain name [.v128, .v128, .v128] [.v128])

/-- From a vector to a truth value or a mask. -/
def test (name : String) : Option (Read Operator) := some (plain name [.v128] [.i32])

def shift (name : String) : Option (Read Operator) := some (plain name [.v128, .i32] [.v128])

def load (name : String) (log2 : Nat) : Option (Read Operator) :=
  some (access name log2 false [] [.v128])

/-- A vector has `16 / 2 ^ log2` lanes of `2 ^ log2` bytes. -/
def laneAccess (name : String) (log2 : Nat) (pushes : List ValType) : Read Operator := do
  let op ← access name log2 false [.v128] pushes
  let _ ← lane (16 >>> log2)
  return op

def loadLane (name : String) (log2 : Nat) : Option (Read Operator) :=
  some (laneAccess name log2 [.v128])

def storeLane (name : String) (log2 : Nat) : Option (Read Operator) :=
  some (laneAccess name log2 [])

def loadV128 : Option (Read Operator) := some do
  let arg ← MemArg.read
  return .load .v128 arg

def storeV128 : Option (Read Operator) := some do
  let arg ← MemArg.read
  return .store .v128 arg

def constV128 : Option (Read Operator) := some do
  let bits ← Read.fixed 16
  return .const (.v128 (BitVec.ofNat 128 bits))

def shuffle : Option (Read Operator) := some do
  let lanes ← Read.many (lane 32) 16 #[]
  return .shuffle lanes.toList

def extract (shape : Ssa.LaneShape) (signed : Bool) : Option (Read Operator) := some do
  let index ← lane shape.lanes
  return .extractLane shape signed index

def replace (shape : Ssa.LaneShape) : Option (Read Operator) := some do
  let index ← lane shape.lanes
  return .replaceLane shape index

def table : Array (Option (Read Operator)) :=
  #[
    loadV128, load "V128Load8x8S" 3, load "V128Load8x8U" 3, load "V128Load16x4S" 3,
    load "V128Load16x4U" 3, load "V128Load32x2S" 3, load "V128Load32x2U" 3,
    load "V128Load8Splat" 0, load "V128Load16Splat" 1, load "V128Load32Splat" 2,
    load "V128Load64Splat" 3, storeV128, constV128, shuffle, now (.binary .i8x16Swizzle),
    now (.splat .i8x16), now (.splat .i16x8), now (.splat .i32x4), now (.splat .i64x2),
    now (.splat .f32x4), now (.splat .f64x2), extract .i8x16 true, extract .i8x16 false,
    replace .i8x16, extract .i16x8 true, extract .i16x8 false, replace .i16x8,
    extract .i32x4 false, replace .i32x4, extract .i64x2 false, replace .i64x2,
    extract .f32x4 false, replace .f32x4, extract .f64x2 false, replace .f64x2,
    now (.binary .i8x16Eq), two "I8x16Ne", two "I8x16LtS", two "I8x16LtU", two "I8x16GtS",
    two "I8x16GtU", two "I8x16LeS", two "I8x16LeU", two "I8x16GeS", two "I8x16GeU", two "I16x8Eq",
    two "I16x8Ne", two "I16x8LtS", two "I16x8LtU", two "I16x8GtS", two "I16x8GtU", two "I16x8LeS",
    two "I16x8LeU", two "I16x8GeS", two "I16x8GeU", now (.binary .i32x4Eq), two "I32x4Ne",
    two "I32x4LtS", two "I32x4LtU", two "I32x4GtS", two "I32x4GtU", two "I32x4LeS",
    two "I32x4LeU", two "I32x4GeS", two "I32x4GeU", two "F32x4Eq", two "F32x4Ne", two "F32x4Lt",
    two "F32x4Gt", two "F32x4Le", two "F32x4Ge", two "F64x2Eq", two "F64x2Ne", two "F64x2Lt",
    two "F64x2Gt", two "F64x2Le", two "F64x2Ge", now (.unary .v128Not), now (.binary .v128And),
    now (.binary .v128AndNot), now (.binary .v128Or), now (.binary .v128Xor),
    three "V128Bitselect", now (.unary .v128AnyTrue), loadLane "V128Load8Lane" 0,
    loadLane "V128Load16Lane" 1, loadLane "V128Load32Lane" 2, loadLane "V128Load64Lane" 3,
    storeLane "V128Store8Lane" 0, storeLane "V128Store16Lane" 1, storeLane "V128Store32Lane" 2,
    storeLane "V128Store64Lane" 3, load "V128Load32Zero" 2, load "V128Load64Zero" 3,
    one "F32x4DemoteF64x2Zero", one "F64x2PromoteLowF32x4", one "I8x16Abs",
    now (.unary .i8x16Neg), one "I8x16Popcnt", test "I8x16AllTrue", test "I8x16Bitmask",
    two "I8x16NarrowI16x8S", two "I8x16NarrowI16x8U", one "F32x4Ceil", one "F32x4Floor",
    one "F32x4Trunc", one "F32x4Nearest", shift "I8x16Shl", shift "I8x16ShrS", shift "I8x16ShrU",
    now (.binary .i8x16Add), two "I8x16AddSatS", two "I8x16AddSatU", now (.binary .i8x16Sub),
    two "I8x16SubSatS", two "I8x16SubSatU", one "F64x2Ceil", one "F64x2Floor", two "I8x16MinS",
    two "I8x16MinU", two "I8x16MaxS", two "I8x16MaxU", one "F64x2Trunc", two "I8x16AvgrU",
    one "I16x8ExtAddPairwiseI8x16S", one "I16x8ExtAddPairwiseI8x16U",
    one "I32x4ExtAddPairwiseI16x8S", one "I32x4ExtAddPairwiseI16x8U", one "I16x8Abs",
    one "I16x8Neg", two "I16x8Q15MulrSatS", test "I16x8AllTrue", test "I16x8Bitmask",
    two "I16x8NarrowI32x4S", two "I16x8NarrowI32x4U", one "I16x8ExtendLowI8x16S",
    one "I16x8ExtendHighI8x16S", one "I16x8ExtendLowI8x16U", one "I16x8ExtendHighI8x16U",
    shift "I16x8Shl", shift "I16x8ShrS", shift "I16x8ShrU", now (.binary .i16x8Add),
    two "I16x8AddSatS", two "I16x8AddSatU", now (.binary .i16x8Sub), two "I16x8SubSatS",
    two "I16x8SubSatU", one "F64x2Nearest", now (.binary .i16x8Mul), two "I16x8MinS",
    two "I16x8MinU", two "I16x8MaxS", two "I16x8MaxU", none, two "I16x8AvgrU",
    two "I16x8ExtMulLowI8x16S", two "I16x8ExtMulHighI8x16S", two "I16x8ExtMulLowI8x16U",
    two "I16x8ExtMulHighI8x16U", one "I32x4Abs", now (.unary .i32x4Neg), none,
    test "I32x4AllTrue", test "I32x4Bitmask", none, none, one "I32x4ExtendLowI16x8S",
    one "I32x4ExtendHighI16x8S", one "I32x4ExtendLowI16x8U", one "I32x4ExtendHighI16x8U",
    shift "I32x4Shl", shift "I32x4ShrS", shift "I32x4ShrU", now (.binary .i32x4Add), none, none,
    now (.binary .i32x4Sub), none, none, none, now (.binary .i32x4Mul), two "I32x4MinS",
    two "I32x4MinU", two "I32x4MaxS", two "I32x4MaxU", two "I32x4DotI16x8S", none,
    two "I32x4ExtMulLowI16x8S", two "I32x4ExtMulHighI16x8S", two "I32x4ExtMulLowI16x8U",
    two "I32x4ExtMulHighI16x8U", one "I64x2Abs", one "I64x2Neg", none, test "I64x2AllTrue",
    test "I64x2Bitmask", none, none, one "I64x2ExtendLowI32x4S", one "I64x2ExtendHighI32x4S",
    one "I64x2ExtendLowI32x4U", one "I64x2ExtendHighI32x4U", shift "I64x2Shl", shift "I64x2ShrS",
    shift "I64x2ShrU", now (.binary .i64x2Add), none, none, now (.binary .i64x2Sub), none, none,
    none, now (.binary .i64x2Mul), two "I64x2Eq", two "I64x2Ne", two "I64x2LtS", two "I64x2GtS",
    two "I64x2LeS", two "I64x2GeS", two "I64x2ExtMulLowI32x4S", two "I64x2ExtMulHighI32x4S",
    two "I64x2ExtMulLowI32x4U", two "I64x2ExtMulHighI32x4U", one "F32x4Abs",
    now (.unary .f32x4Neg), none, one "F32x4Sqrt", now (.binary .f32x4Add),
    now (.binary .f32x4Sub), now (.binary .f32x4Mul), now (.binary .f32x4Div), two "F32x4Min",
    two "F32x4Max", two "F32x4PMin", two "F32x4PMax", one "F64x2Abs", now (.unary .f64x2Neg),
    none, one "F64x2Sqrt", now (.binary .f64x2Add), now (.binary .f64x2Sub),
    now (.binary .f64x2Mul), now (.binary .f64x2Div), two "F64x2Min", two "F64x2Max",
    two "F64x2PMin", two "F64x2PMax", one "I32x4TruncSatF32x4S", one "I32x4TruncSatF32x4U",
    one "F32x4ConvertI32x4S", one "F32x4ConvertI32x4U", one "I32x4TruncSatF64x2SZero",
    one "I32x4TruncSatF64x2UZero", one "F64x2ConvertLowI32x4S", one "F64x2ConvertLowI32x4U",
    two "I8x16RelaxedSwizzle", one "I32x4RelaxedTruncF32x4S", one "I32x4RelaxedTruncF32x4U",
    one "I32x4RelaxedTruncF64x2SZero", one "I32x4RelaxedTruncF64x2UZero",
    three "F32x4RelaxedMadd", three "F32x4RelaxedNmadd", three "F64x2RelaxedMadd",
    three "F64x2RelaxedNmadd", three "I8x16RelaxedLaneselect", three "I16x8RelaxedLaneselect",
    three "I32x4RelaxedLaneselect", three "I64x2RelaxedLaneselect", two "F32x4RelaxedMin",
    two "F32x4RelaxedMax", two "F64x2RelaxedMin", two "F64x2RelaxedMax",
    two "I16x8RelaxedQ15mulrS", two "I16x8RelaxedDotI8x16I7x16S",
    three "I32x4RelaxedDotI8x16I7x16AddS"]

end Wasmill.Wasm.Opcode.Vector

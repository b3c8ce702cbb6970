import Wasmill.Wasm.Opcode.Basic

/-! Numeric operators and the accesses of linear memory, in the order of their opcodes. -/
namespace Wasmill.Wasm.Opcode

/-- The first opcode of `numeric`. -/
def numericStart : Nat := 0x45

def numeric : Array Operator :=
  #[
    .unary .i32Eqz, .binary .i32Eq, .binary .i32Ne, .binary .i32LtS, .binary .i32LtU,
    .binary .i32GtS, .binary .i32GtU, .binary .i32LeS, .binary .i32LeU, .binary .i32GeS,
    .binary .i32GeU, .unary .i64Eqz, .binary .i64Eq, .binary .i64Ne, .binary .i64LtS,
    .binary .i64LtU, .binary .i64GtS, .binary .i64GtU, .binary .i64LeS, .binary .i64LeU,
    .binary .i64GeS, .binary .i64GeU, .binary .f32Eq, .binary .f32Ne, .binary .f32Lt,
    .binary .f32Gt, .binary .f32Le, .binary .f32Ge, .binary .f64Eq, .binary .f64Ne,
    .binary .f64Lt, .binary .f64Gt, .binary .f64Le, .binary .f64Ge, .unary .i32Clz,
    .unary .i32Ctz, .unary .i32Popcnt, .binary .i32Add, .binary .i32Sub, .binary .i32Mul,
    .binary .i32DivS, .binary .i32DivU, .binary .i32RemS, .binary .i32RemU, .binary .i32And,
    .binary .i32Or, .binary .i32Xor, .binary .i32Shl, .binary .i32ShrS, .binary .i32ShrU,
    .binary .i32Rotl, .binary .i32Rotr, .unary .i64Clz, .unary .i64Ctz, .unary .i64Popcnt,
    .binary .i64Add, .binary .i64Sub, .binary .i64Mul, .binary .i64DivS, .binary .i64DivU,
    .binary .i64RemS, .binary .i64RemU, .binary .i64And, .binary .i64Or, .binary .i64Xor,
    .binary .i64Shl, .binary .i64ShrS, .binary .i64ShrU, .binary .i64Rotl, .binary .i64Rotr,
    .unary .f32Abs, .unary .f32Neg, .unary .f32Ceil, .unary .f32Floor, .unary .f32Trunc,
    .unary .f32Nearest, .unary .f32Sqrt, .binary .f32Add, .binary .f32Sub, .binary .f32Mul,
    .binary .f32Div, .binary .f32Min, .binary .f32Max, .binary .f32Copysign, .unary .f64Abs,
    .unary .f64Neg, .unary .f64Ceil, .unary .f64Floor, .unary .f64Trunc, .unary .f64Nearest,
    .unary .f64Sqrt, .binary .f64Add, .binary .f64Sub, .binary .f64Mul, .binary .f64Div,
    .binary .f64Min, .binary .f64Max, .binary .f64Copysign, .convert .i32WrapI64,
    .convert .i32TruncF32S, .convert .i32TruncF32U, .convert .i32TruncF64S,
    .convert .i32TruncF64U, .convert .i64ExtendI32S, .convert .i64ExtendI32U,
    .convert .i64TruncF32S, .convert .i64TruncF32U, .convert .i64TruncF64S,
    .convert .i64TruncF64U, .convert .f32ConvertI32S, .convert .f32ConvertI32U,
    .convert .f32ConvertI64S, .convert .f32ConvertI64U, .convert .f32DemoteF64,
    .convert .f64ConvertI32S, .convert .f64ConvertI32U, .convert .f64ConvertI64S,
    .convert .f64ConvertI64U, .convert .f64PromoteF32, .convert .i32ReinterpretF32,
    .convert .i64ReinterpretF64, .convert .f32ReinterpretI32, .convert .f64ReinterpretI64,
    .unary .i32Extend8S, .unary .i32Extend16S, .unary .i64Extend8S, .unary .i64Extend16S,
    .unary .i64Extend32S]

/-- Opcodes from `0x28` to `0x35`. -/
def load (code : Nat) : Read Operator := do
  let arg ← MemArg.read
  return .load (Ssa.LoadKind.all.getD (code - 0x28) .i32) arg

/-- Opcodes from `0x36` to `0x3e`. -/
def store (code : Nat) : Read Operator := do
  let arg ← MemArg.read
  return .store (Ssa.StoreKind.all.getD (code - 0x36) .i32) arg

end Wasmill.Wasm.Opcode

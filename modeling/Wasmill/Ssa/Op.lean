import Wasmill.ValType

/-! The operations of the intermediate form and of the byte code.

Every operation is a single byte, its place in `all`, so the encoder writes it and the machine reads
it back with `ofByte?`. Names are those of the WebAssembly operators they come from. -/
namespace Wasmill.Ssa

/-- One operand, one result, never a trap. -/
inductive UnaryOp
  | i32Eqz | i32Clz | i32Ctz | i32Popcnt | i64Eqz | i64Clz | i64Ctz | i64Popcnt | f32Abs | f32Neg
  | f32Ceil | f32Floor | f32Trunc | f32Nearest | f32Sqrt | f64Abs | f64Neg | f64Ceil | f64Floor
  | f64Trunc | f64Nearest | f64Sqrt | i32Extend8S | i32Extend16S | i64Extend8S | i64Extend16S
  | i64Extend32S | v128Not | v128AnyTrue | i8x16Neg | i32x4Neg | f32x4Neg | f64x2Neg
  deriving DecidableEq, Repr, Inhabited

namespace UnaryOp

def all : Array UnaryOp :=
  #[
    .i32Eqz, .i32Clz, .i32Ctz, .i32Popcnt, .i64Eqz, .i64Clz, .i64Ctz, .i64Popcnt, .f32Abs,
    .f32Neg, .f32Ceil, .f32Floor, .f32Trunc, .f32Nearest, .f32Sqrt, .f64Abs, .f64Neg, .f64Ceil,
    .f64Floor, .f64Trunc, .f64Nearest, .f64Sqrt, .i32Extend8S, .i32Extend16S, .i64Extend8S,
    .i64Extend16S, .i64Extend32S, .v128Not, .v128AnyTrue, .i8x16Neg, .i32x4Neg, .f32x4Neg,
    .f64x2Neg]

def names : Array String :=
  #[
    "I32Eqz", "I32Clz", "I32Ctz", "I32Popcnt", "I64Eqz", "I64Clz", "I64Ctz", "I64Popcnt",
    "F32Abs", "F32Neg", "F32Ceil", "F32Floor", "F32Trunc", "F32Nearest", "F32Sqrt", "F64Abs",
    "F64Neg", "F64Ceil", "F64Floor", "F64Trunc", "F64Nearest", "F64Sqrt", "I32Extend8S",
    "I32Extend16S", "I64Extend8S", "I64Extend16S", "I64Extend32S", "V128Not", "V128AnyTrue",
    "I8x16Neg", "I32x4Neg", "F32x4Neg", "F64x2Neg"]

def toByte (op : UnaryOp) : Nat := op.ctorIdx

def ofByte? (byte : Nat) : Option UnaryOp := all[byte]?

def name (op : UnaryOp) : String := names.getD op.toByte ""

theorem ofByte?_toByte (op : UnaryOp) : ofByte? op.toByte = some op := by cases op <;> rfl

def operandTy : UnaryOp → ValType
  | .i32Eqz | .i32Clz | .i32Ctz | .i32Popcnt | .i32Extend8S | .i32Extend16S => .i32
  | .v128Not | .v128AnyTrue | .i8x16Neg | .i32x4Neg | .f32x4Neg | .f64x2Neg => .v128
  | .i64Eqz | .i64Clz | .i64Ctz | .i64Popcnt | .i64Extend8S | .i64Extend16S | .i64Extend32S => .i64
  | .f32Abs | .f32Neg | .f32Ceil | .f32Floor | .f32Trunc | .f32Nearest | .f32Sqrt => .f32
  | .f64Abs | .f64Neg | .f64Ceil | .f64Floor | .f64Trunc | .f64Nearest | .f64Sqrt => .f64

def resultTy : UnaryOp → ValType
  | .v128Not | .i8x16Neg | .i32x4Neg | .f32x4Neg | .f64x2Neg => .v128
  | .i64Clz | .i64Ctz | .i64Popcnt | .i64Extend8S | .i64Extend16S | .i64Extend32S => .i64
  | .f32Abs | .f32Neg | .f32Ceil | .f32Floor | .f32Trunc | .f32Nearest | .f32Sqrt => .f32
  | .f64Abs | .f64Neg | .f64Ceil | .f64Floor | .f64Trunc | .f64Nearest | .f64Sqrt => .f64
  | .i32Eqz | .i32Clz | .i32Ctz | .i32Popcnt | .i64Eqz | .i32Extend8S | .i32Extend16S
  | .v128AnyTrue => .i32

end UnaryOp

/-- Two operands of one type. -/
inductive BinaryOp
  | i32Eq | i32Ne | i32LtS | i32LtU | i32GtS | i32GtU | i32LeS | i32LeU | i32GeS | i32GeU | i64Eq
  | i64Ne | i64LtS | i64LtU | i64GtS | i64GtU | i64LeS | i64LeU | i64GeS | i64GeU | f32Eq | f32Ne
  | f32Lt | f32Gt | f32Le | f32Ge | f64Eq | f64Ne | f64Lt | f64Gt | f64Le | f64Ge | i32Add
  | i32Sub | i32Mul | i32DivS | i32DivU | i32RemS | i32RemU | i32And | i32Or | i32Xor | i32Shl
  | i32ShrS | i32ShrU | i32Rotl | i32Rotr | i64Add | i64Sub | i64Mul | i64DivS | i64DivU
  | i64RemS | i64RemU | i64And | i64Or | i64Xor | i64Shl | i64ShrS | i64ShrU | i64Rotl | i64Rotr
  | f32Add | f32Sub | f32Mul | f32Div | f32Min | f32Max | f32Copysign | f64Add | f64Sub | f64Mul
  | f64Div | f64Min | f64Max | f64Copysign | v128And | v128Or | v128Xor | v128AndNot | i8x16Add
  | i8x16Sub | i8x16Eq | i16x8Add | i16x8Sub | i16x8Mul | i32x4Add | i32x4Sub | i32x4Mul
  | i32x4Eq | i64x2Add | i64x2Sub | i64x2Mul | f32x4Add | f32x4Sub | f32x4Mul | f32x4Div
  | f64x2Add | f64x2Sub | f64x2Mul | f64x2Div | i8x16Swizzle
  deriving DecidableEq, Repr, Inhabited

namespace BinaryOp

def all : Array BinaryOp :=
  #[
    .i32Eq, .i32Ne, .i32LtS, .i32LtU, .i32GtS, .i32GtU, .i32LeS, .i32LeU, .i32GeS, .i32GeU,
    .i64Eq, .i64Ne, .i64LtS, .i64LtU, .i64GtS, .i64GtU, .i64LeS, .i64LeU, .i64GeS, .i64GeU,
    .f32Eq, .f32Ne, .f32Lt, .f32Gt, .f32Le, .f32Ge, .f64Eq, .f64Ne, .f64Lt, .f64Gt, .f64Le,
    .f64Ge, .i32Add, .i32Sub, .i32Mul, .i32DivS, .i32DivU, .i32RemS, .i32RemU, .i32And, .i32Or,
    .i32Xor, .i32Shl, .i32ShrS, .i32ShrU, .i32Rotl, .i32Rotr, .i64Add, .i64Sub, .i64Mul,
    .i64DivS, .i64DivU, .i64RemS, .i64RemU, .i64And, .i64Or, .i64Xor, .i64Shl, .i64ShrS,
    .i64ShrU, .i64Rotl, .i64Rotr, .f32Add, .f32Sub, .f32Mul, .f32Div, .f32Min, .f32Max,
    .f32Copysign, .f64Add, .f64Sub, .f64Mul, .f64Div, .f64Min, .f64Max, .f64Copysign, .v128And,
    .v128Or, .v128Xor, .v128AndNot, .i8x16Add, .i8x16Sub, .i8x16Eq, .i16x8Add, .i16x8Sub,
    .i16x8Mul, .i32x4Add, .i32x4Sub, .i32x4Mul, .i32x4Eq, .i64x2Add, .i64x2Sub, .i64x2Mul,
    .f32x4Add, .f32x4Sub, .f32x4Mul, .f32x4Div, .f64x2Add, .f64x2Sub, .f64x2Mul, .f64x2Div,
    .i8x16Swizzle]

def names : Array String :=
  #[
    "I32Eq", "I32Ne", "I32LtS", "I32LtU", "I32GtS", "I32GtU", "I32LeS", "I32LeU", "I32GeS",
    "I32GeU", "I64Eq", "I64Ne", "I64LtS", "I64LtU", "I64GtS", "I64GtU", "I64LeS", "I64LeU",
    "I64GeS", "I64GeU", "F32Eq", "F32Ne", "F32Lt", "F32Gt", "F32Le", "F32Ge", "F64Eq", "F64Ne",
    "F64Lt", "F64Gt", "F64Le", "F64Ge", "I32Add", "I32Sub", "I32Mul", "I32DivS", "I32DivU",
    "I32RemS", "I32RemU", "I32And", "I32Or", "I32Xor", "I32Shl", "I32ShrS", "I32ShrU", "I32Rotl",
    "I32Rotr", "I64Add", "I64Sub", "I64Mul", "I64DivS", "I64DivU", "I64RemS", "I64RemU",
    "I64And", "I64Or", "I64Xor", "I64Shl", "I64ShrS", "I64ShrU", "I64Rotl", "I64Rotr", "F32Add",
    "F32Sub", "F32Mul", "F32Div", "F32Min", "F32Max", "F32Copysign", "F64Add", "F64Sub",
    "F64Mul", "F64Div", "F64Min", "F64Max", "F64Copysign", "V128And", "V128Or", "V128Xor",
    "V128AndNot", "I8x16Add", "I8x16Sub", "I8x16Eq", "I16x8Add", "I16x8Sub", "I16x8Mul",
    "I32x4Add", "I32x4Sub", "I32x4Mul", "I32x4Eq", "I64x2Add", "I64x2Sub", "I64x2Mul",
    "F32x4Add", "F32x4Sub", "F32x4Mul", "F32x4Div", "F64x2Add", "F64x2Sub", "F64x2Mul",
    "F64x2Div", "I8x16Swizzle"]

def toByte (op : BinaryOp) : Nat := op.ctorIdx

def ofByte? (byte : Nat) : Option BinaryOp := all[byte]?

def name (op : BinaryOp) : String := names.getD op.toByte ""

theorem ofByte?_toByte (op : BinaryOp) : ofByte? op.toByte = some op := by cases op <;> rfl

def operandTy : BinaryOp → ValType
  | .f32Eq | .f32Ne | .f32Lt | .f32Gt | .f32Le | .f32Ge | .f32Add | .f32Sub | .f32Mul | .f32Div
  | .f32Min | .f32Max | .f32Copysign => .f32
  | .f64Eq | .f64Ne | .f64Lt | .f64Gt | .f64Le | .f64Ge | .f64Add | .f64Sub | .f64Mul | .f64Div
  | .f64Min | .f64Max | .f64Copysign => .f64
  | .i32Eq | .i32Ne | .i32LtS | .i32LtU | .i32GtS | .i32GtU | .i32LeS | .i32LeU | .i32GeS
  | .i32GeU | .i32Add | .i32Sub | .i32Mul | .i32DivS | .i32DivU | .i32RemS | .i32RemU | .i32And
  | .i32Or | .i32Xor | .i32Shl | .i32ShrS | .i32ShrU | .i32Rotl | .i32Rotr => .i32
  | .i64Eq | .i64Ne | .i64LtS | .i64LtU | .i64GtS | .i64GtU | .i64LeS | .i64LeU | .i64GeS
  | .i64GeU | .i64Add | .i64Sub | .i64Mul | .i64DivS | .i64DivU | .i64RemS | .i64RemU | .i64And
  | .i64Or | .i64Xor | .i64Shl | .i64ShrS | .i64ShrU | .i64Rotl | .i64Rotr => .i64
  | .v128And | .v128Or | .v128Xor | .v128AndNot | .i8x16Add | .i8x16Sub | .i8x16Eq | .i16x8Add
  | .i16x8Sub | .i16x8Mul | .i32x4Add | .i32x4Sub | .i32x4Mul | .i32x4Eq | .i64x2Add | .i64x2Sub
  | .i64x2Mul | .f32x4Add | .f32x4Sub | .f32x4Mul | .f32x4Div | .f64x2Add | .f64x2Sub | .f64x2Mul
  | .f64x2Div | .i8x16Swizzle => .v128

def resultTy : BinaryOp → ValType
  | .f32Add | .f32Sub | .f32Mul | .f32Div | .f32Min | .f32Max | .f32Copysign => .f32
  | .f64Add | .f64Sub | .f64Mul | .f64Div | .f64Min | .f64Max | .f64Copysign => .f64
  | .i64Add | .i64Sub | .i64Mul | .i64DivS | .i64DivU | .i64RemS | .i64RemU | .i64And | .i64Or
  | .i64Xor | .i64Shl | .i64ShrS | .i64ShrU | .i64Rotl | .i64Rotr => .i64
  | .v128And | .v128Or | .v128Xor | .v128AndNot | .i8x16Add | .i8x16Sub | .i8x16Eq | .i16x8Add
  | .i16x8Sub | .i16x8Mul | .i32x4Add | .i32x4Sub | .i32x4Mul | .i32x4Eq | .i64x2Add | .i64x2Sub
  | .i64x2Mul | .f32x4Add | .f32x4Sub | .f32x4Mul | .f32x4Div | .f64x2Add | .f64x2Sub | .f64x2Mul
  | .f64x2Div | .i8x16Swizzle => .v128
  | .i32Eq | .i32Ne | .i32LtS | .i32LtU | .i32GtS | .i32GtU | .i32LeS | .i32LeU | .i32GeS
  | .i32GeU | .i64Eq | .i64Ne | .i64LtS | .i64LtU | .i64GtS | .i64GtU | .i64LeS | .i64LeU
  | .i64GeS | .i64GeU | .f32Eq | .f32Ne | .f32Lt | .f32Gt | .f32Le | .f32Ge | .f64Eq | .f64Ne
  | .f64Lt | .f64Gt | .f64Le | .f64Ge | .i32Add | .i32Sub | .i32Mul | .i32DivS | .i32DivU
  | .i32RemS | .i32RemU | .i32And | .i32Or | .i32Xor | .i32Shl | .i32ShrS | .i32ShrU | .i32Rotl
  | .i32Rotr => .i32

/-- Whether the operation may trap: divisions and remainders. -/
def canTrap : BinaryOp → Bool
  | .i32DivS | .i32DivU | .i32RemS | .i32RemU | .i64DivS | .i64DivU | .i64RemS | .i64RemU => true
  | _ => false

end BinaryOp

/-- From one numeric type to another. The `Sat` forms clamp where the others trap. -/
inductive ConvertOp
  | i32WrapI64 | i64ExtendI32S | i64ExtendI32U | i32TruncF32S | i32TruncF32U | i32TruncF64S
  | i32TruncF64U | i64TruncF32S | i64TruncF32U | i64TruncF64S | i64TruncF64U | i32TruncSatF32S
  | i32TruncSatF32U | i32TruncSatF64S | i32TruncSatF64U | i64TruncSatF32S | i64TruncSatF32U
  | i64TruncSatF64S | i64TruncSatF64U | f32ConvertI32S | f32ConvertI32U | f32ConvertI64S
  | f32ConvertI64U | f64ConvertI32S | f64ConvertI32U | f64ConvertI64S | f64ConvertI64U
  | f32DemoteF64 | f64PromoteF32 | i32ReinterpretF32 | i64ReinterpretF64 | f32ReinterpretI32
  | f64ReinterpretI64
  deriving DecidableEq, Repr, Inhabited

namespace ConvertOp

def all : Array ConvertOp :=
  #[
    .i32WrapI64, .i64ExtendI32S, .i64ExtendI32U, .i32TruncF32S, .i32TruncF32U, .i32TruncF64S,
    .i32TruncF64U, .i64TruncF32S, .i64TruncF32U, .i64TruncF64S, .i64TruncF64U, .i32TruncSatF32S,
    .i32TruncSatF32U, .i32TruncSatF64S, .i32TruncSatF64U, .i64TruncSatF32S, .i64TruncSatF32U,
    .i64TruncSatF64S, .i64TruncSatF64U, .f32ConvertI32S, .f32ConvertI32U, .f32ConvertI64S,
    .f32ConvertI64U, .f64ConvertI32S, .f64ConvertI32U, .f64ConvertI64S, .f64ConvertI64U,
    .f32DemoteF64, .f64PromoteF32, .i32ReinterpretF32, .i64ReinterpretF64, .f32ReinterpretI32,
    .f64ReinterpretI64]

def names : Array String :=
  #[
    "I32WrapI64", "I64ExtendI32S", "I64ExtendI32U", "I32TruncF32S", "I32TruncF32U",
    "I32TruncF64S", "I32TruncF64U", "I64TruncF32S", "I64TruncF32U", "I64TruncF64S",
    "I64TruncF64U", "I32TruncSatF32S", "I32TruncSatF32U", "I32TruncSatF64S", "I32TruncSatF64U",
    "I64TruncSatF32S", "I64TruncSatF32U", "I64TruncSatF64S", "I64TruncSatF64U", "F32ConvertI32S",
    "F32ConvertI32U", "F32ConvertI64S", "F32ConvertI64U", "F64ConvertI32S", "F64ConvertI32U",
    "F64ConvertI64S", "F64ConvertI64U", "F32DemoteF64", "F64PromoteF32", "I32ReinterpretF32",
    "I64ReinterpretF64", "F32ReinterpretI32", "F64ReinterpretI64"]

def toByte (op : ConvertOp) : Nat := op.ctorIdx

def ofByte? (byte : Nat) : Option ConvertOp := all[byte]?

def name (op : ConvertOp) : String := names.getD op.toByte ""

theorem ofByte?_toByte (op : ConvertOp) : ofByte? op.toByte = some op := by cases op <;> rfl

def operandTy : ConvertOp → ValType
  | .i32WrapI64 | .f32ConvertI64S | .f32ConvertI64U | .f64ConvertI64S | .f64ConvertI64U
  | .f64ReinterpretI64 => .i64
  | .i64ExtendI32S | .i64ExtendI32U | .f32ConvertI32S | .f32ConvertI32U | .f64ConvertI32S
  | .f64ConvertI32U | .f32ReinterpretI32 => .i32
  | .i32TruncF32S | .i32TruncF32U | .i64TruncF32S | .i64TruncF32U | .i32TruncSatF32S
  | .i32TruncSatF32U | .i64TruncSatF32S | .i64TruncSatF32U | .f64PromoteF32
  | .i32ReinterpretF32 => .f32
  | .i32TruncF64S | .i32TruncF64U | .i64TruncF64S | .i64TruncF64U | .i32TruncSatF64S
  | .i32TruncSatF64U | .i64TruncSatF64S | .i64TruncSatF64U | .f32DemoteF64
  | .i64ReinterpretF64 => .f64

def resultTy : ConvertOp → ValType
  | .f32ConvertI32S | .f32ConvertI32U | .f32ConvertI64S | .f32ConvertI64U | .f32DemoteF64
  | .f32ReinterpretI32 => .f32
  | .f64ConvertI32S | .f64ConvertI32U | .f64ConvertI64S | .f64ConvertI64U | .f64PromoteF32
  | .f64ReinterpretI64 => .f64
  | .i32WrapI64 | .i32TruncF32S | .i32TruncF32U | .i32TruncF64S | .i32TruncF64U
  | .i32TruncSatF32S | .i32TruncSatF32U | .i32TruncSatF64S | .i32TruncSatF64U
  | .i32ReinterpretF32 => .i32
  | .i64ExtendI32S | .i64ExtendI32U | .i64TruncF32S | .i64TruncF32U | .i64TruncF64S
  | .i64TruncF64U | .i64TruncSatF32S | .i64TruncSatF32U | .i64TruncSatF64S | .i64TruncSatF64U
  | .i64ReinterpretF64 => .i64

/-- Whether the conversion may trap: the truncations that do not clamp. -/
def canTrap : ConvertOp → Bool
  | .i32TruncF32S | .i32TruncF32U | .i32TruncF64S | .i32TruncF64U
  | .i64TruncF32S | .i64TruncF32U | .i64TruncF64S | .i64TruncF64U => true
  | _ => false

end ConvertOp

/-- What a load reads, and how it is extended. -/
inductive LoadKind
  | i32 | i64 | f32 | f64 | i32S8 | i32U8 | i32S16 | i32U16 | i64S8 | i64U8 | i64S16 | i64U16
  | i64S32 | i64U32 | v128
  deriving DecidableEq, Repr, Inhabited

namespace LoadKind

def all : Array LoadKind :=
  #[
    .i32, .i64, .f32, .f64, .i32S8, .i32U8, .i32S16, .i32U16, .i64S8, .i64U8, .i64S16, .i64U16,
    .i64S32, .i64U32, .v128]

def names : Array String :=
  #[
    "I32", "I64", "F32", "F64", "I32S8", "I32U8", "I32S16", "I32U16", "I64S8", "I64U8", "I64S16",
    "I64U16", "I64S32", "I64U32", "V128"]

def toByte (op : LoadKind) : Nat := op.ctorIdx

def ofByte? (byte : Nat) : Option LoadKind := all[byte]?

def name (op : LoadKind) : String := names.getD op.toByte ""

theorem ofByte?_toByte (op : LoadKind) : ofByte? op.toByte = some op := by cases op <;> rfl

def resultTy : LoadKind → ValType
  | .f32 => .f32
  | .f64 => .f64
  | .v128 => .v128
  | .i32 | .i32S8 | .i32U8 | .i32S16 | .i32U16 => .i32
  | .i64 | .i64S8 | .i64U8 | .i64S16 | .i64U16 | .i64S32 | .i64U32 => .i64

/-- Bytes read from memory. -/
def width : LoadKind → Nat
  | .v128 => 16
  | .i64 | .f64 => 8
  | .i32 | .f32 | .i64S32 | .i64U32 => 4
  | .i32S8 | .i32U8 | .i64S8 | .i64U8 => 1
  | .i32S16 | .i32U16 | .i64S16 | .i64U16 => 2

/-- Whether a narrow load extends the sign. -/
def signed : LoadKind → Bool
  | .i32S8 | .i32S16 | .i64S8 | .i64S16 | .i64S32 => true
  | _ => false

end LoadKind

/-- What a store writes. -/
inductive StoreKind
  | i32 | i64 | f32 | f64 | i32As8 | i32As16 | i64As8 | i64As16 | i64As32 | v128
  deriving DecidableEq, Repr, Inhabited

namespace StoreKind

def all : Array StoreKind :=
  #[
    .i32, .i64, .f32, .f64, .i32As8, .i32As16, .i64As8, .i64As16, .i64As32, .v128]

def names : Array String :=
  #[
    "I32", "I64", "F32", "F64", "I32As8", "I32As16", "I64As8", "I64As16", "I64As32", "V128"]

def toByte (op : StoreKind) : Nat := op.ctorIdx

def ofByte? (byte : Nat) : Option StoreKind := all[byte]?

def name (op : StoreKind) : String := names.getD op.toByte ""

theorem ofByte?_toByte (op : StoreKind) : ofByte? op.toByte = some op := by cases op <;> rfl

def operandTy : StoreKind → ValType
  | .f32 => .f32
  | .f64 => .f64
  | .v128 => .v128
  | .i32 | .i32As8 | .i32As16 => .i32
  | .i64 | .i64As8 | .i64As16 | .i64As32 => .i64

/-- Bytes written to memory. -/
def width : StoreKind → Nat
  | .v128 => 16
  | .i64 | .f64 => 8
  | .i32As8 | .i64As8 => 1
  | .i32As16 | .i64As16 => 2
  | .i32 | .f32 | .i64As32 => 4

end StoreKind

/-- How a vector is divided into lanes. -/
inductive LaneShape
  | i8x16 | i16x8 | i32x4 | i64x2 | f32x4 | f64x2
  deriving DecidableEq, Repr, Inhabited

namespace LaneShape

def all : Array LaneShape :=
  #[
    .i8x16, .i16x8, .i32x4, .i64x2, .f32x4, .f64x2]

def names : Array String :=
  #[
    "I8x16", "I16x8", "I32x4", "I64x2", "F32x4", "F64x2"]

def toByte (op : LaneShape) : Nat := op.ctorIdx

def ofByte? (byte : Nat) : Option LaneShape := all[byte]?

def name (op : LaneShape) : String := names.getD op.toByte ""

theorem ofByte?_toByte (op : LaneShape) : ofByte? op.toByte = some op := by cases op <;> rfl

def lanes : LaneShape → Nat
  | .i8x16 => 16
  | .i16x8 => 8
  | .i32x4 | .f32x4 => 4
  | .i64x2 | .f64x2 => 2

def laneBits (shape : LaneShape) : Nat := 128 / shape.lanes

/-- The type of a single lane outside the vector. -/
def scalarTy : LaneShape → ValType
  | .i8x16 | .i16x8 | .i32x4 => .i32
  | .i64x2 => .i64
  | .f32x4 => .f32
  | .f64x2 => .f64

end LaneShape

end Wasmill.Ssa

import Wasmill.Ssa.Op
import Wasmill.Trap
import Wasmill.Val

/-! What the operations compute.

All of them work on slots: narrower operands are the low bits, narrower results lie under zeros. -/
namespace Wasmill.Ssa
open Ieee

namespace Word

def leadingZeros (v : BitVec w) : Nat := if v = 0 then w else w - 1 - v.toNat.log2

def trailingZeros (v : BitVec w) : Nat := ((List.range w).takeWhile fun i => !v.getLsbD i).length

def ones (v : BitVec w) : Nat := (List.range w).countP fun i => v.getLsbD i

/-- The low `n` bits with their sign. -/
def extend (n : Nat) (v : BitVec w) : BitVec w := (v.setWidth n).signExtend w

def divS (a b : BitVec w) : Except Trap (BitVec w) :=
  if b = 0 then .error .integerDivisionByZero
  else if a = BitVec.intMin w ∧ b = BitVec.allOnes w then .error .integerOverflow
  else .ok (a.sdiv b)

def divU (a b : BitVec w) : Except Trap (BitVec w) :=
  if b = 0 then .error .integerDivisionByZero else .ok (a / b)

def remS (a b : BitVec w) : Except Trap (BitVec w) :=
  if b = 0 then .error .integerDivisionByZero else .ok (a.srem b)

def remU (a b : BitVec w) : Except Trap (BitVec w) :=
  if b = 0 then .error .integerDivisionByZero else .ok (a % b)

/-- Shifts and rotations count modulo the width. -/
def shl (a b : BitVec w) : BitVec w := a <<< (b.toNat % w)

def shrS (a b : BitVec w) : BitVec w := a.sshiftRight (b.toNat % w)

def shrU (a b : BitVec w) : BitVec w := a >>> (b.toNat % w)

def rotl (a b : BitVec w) : BitVec w := a.rotateLeft (b.toNat % w)

def rotr (a b : BitVec w) : BitVec w := a.rotateRight (b.toNat % w)

end Word

/-! ### Lanes -/

/-- The lane at a place, of `bits` bits. -/
def lane (bits : Nat) (v : Slot) (i : Nat) : BitVec bits := (v >>> (i * bits)).setWidth bits

/-- The vector of the given lanes, the lowest first. -/
def ofLanes (bits : Nat) (lanes : List (BitVec bits)) : Slot :=
  lanes.foldr (fun l v => v <<< bits ||| l.setWidth 128) 0

/-- Ones in the lowest `bits` bits of a word. -/
def laneMask (bits : Nat) : BitVec 64 :=
  if bits = 64 then BitVec.allOnes 64 else (1#64 <<< bits) - 1

/-- The lane at a place as a word. -/
def laneWord (bits : Nat) (v : Slot) (i : Nat) : BitVec 64 :=
  (v >>> (i * bits)).setWidth 64 &&& laneMask bits

/-- Puts words into the lanes of a vector; what a lane has no room for is cut off. -/
def joinLanes (bits : Nat) (words : Nat → BitVec 64) : Slot :=
  (List.range (128 / bits)).foldl
    (fun out i => out ||| (words i &&& laneMask bits).setWidth 128 <<< (i * bits)) 0

def mapLanes (bits : Nat) (f : BitVec 64 → BitVec 64) (a : Slot) : Slot :=
  joinLanes bits fun i => f (laneWord bits a i)

def zipLanes (bits : Nat) (f : BitVec 64 → BitVec 64 → BitVec 64) (a b : Slot) : Slot :=
  joinLanes bits fun i => f (laneWord bits a i) (laneWord bits b i)

def allOnes (b : Bool) : BitVec 64 := if b then BitVec.allOnes 64 else 0

/-- A float operation in each of four lanes. -/
def f32Lanes (f : Nat → Nat → Nat) : Slot → Slot → Slot :=
  zipLanes 32 fun x y =>
    (BitVec.ofNat 32 (f (x.setWidth 32).toNat (y.setWidth 32).toNat)).setWidth 64

/-- A float operation in each of two lanes. -/
def f64Lanes (f : Nat → Nat → Nat) : Slot → Slot → Slot :=
  zipLanes 64 fun x y => BitVec.ofNat 64 (f x.toNat y.toNat)

/-- Bytes picked from `source`; what is not there is zero. -/
def pick (source : List (BitVec 8)) (places : List Nat) : Slot :=
  ofLanes 8 (places.map fun i => source.getD i 0)

def bytes (v : Slot) : List (BitVec 8) := (List.range 16).map (lane 8 v)

def swizzle (a b : Slot) : Slot := pick (bytes a) ((bytes b).map (·.toNat))

def shuffle (a b : Slot) (lanes : List Nat) : Slot := pick (bytes a ++ bytes b) lanes

namespace LaneShape

def splat (shape : LaneShape) (a : Slot) : Slot :=
  mapLanes shape.laneBits (fun _ => a.setWidth 64 &&& laneMask shape.laneBits) 0

/-- How far a lane lies up. -/
def shift (shape : LaneShape) (i : Nat) : Nat := i * shape.laneBits % 128

def extract (shape : LaneShape) (signed : Bool) (i : Nat) (v : Slot) : Slot :=
  let raw := (v >>> shape.shift i).setWidth 64 &&& laneMask shape.laneBits
  match shape, signed with
  | .i8x16, true => .of32 ((raw.setWidth 8).signExtend 32)
  | .i16x8, true => .of32 ((raw.setWidth 16).signExtend 32)
  | _, _ => .of64 raw

def replace (shape : LaneShape) (i : Nat) (v value : Slot) : Slot :=
  let mask := (laneMask shape.laneBits).setWidth 128 <<< shape.shift i
  (v &&& ~~~mask) ||| (value <<< shape.shift i &&& mask)

end LaneShape

/-! ### Operations -/

/-- A float operation on the low 32 bits. -/
def onF32 (f : Nat → Nat) (a : Slot) : Slot := .ofNat32 (f a.low32.toNat)

/-- A float operation on the low 64 bits. -/
def onF64 (f : Nat → Nat) (a : Slot) : Slot := .ofNat64 (f a.low64.toNat)

def UnaryOp.eval (op : UnaryOp) (a : Slot) : Slot :=
  match op with
  | .i32Eqz => .ofBool (a.low32 == 0)
  | .i32Clz => .ofNat32 (Word.leadingZeros a.low32)
  | .i32Ctz => .ofNat32 (Word.trailingZeros a.low32)
  | .i32Popcnt => .ofNat32 (Word.ones a.low32)
  | .i64Eqz => .ofBool (a.low64 == 0)
  | .i64Clz => .ofNat64 (Word.leadingZeros a.low64)
  | .i64Ctz => .ofNat64 (Word.trailingZeros a.low64)
  | .i64Popcnt => .ofNat64 (Word.ones a.low64)
  | .f32Abs => onF32 single.abs a
  | .f32Neg => onF32 single.neg a
  | .f32Ceil => onF32 (single.roundWhole .up) a
  | .f32Floor => onF32 (single.roundWhole .down) a
  | .f32Trunc => onF32 (single.roundWhole .zero) a
  | .f32Nearest => onF32 (single.roundWhole .nearest) a
  | .f32Sqrt => onF32 single.sqrt a
  | .f64Abs => onF64 double.abs a
  | .f64Neg => onF64 double.neg a
  | .f64Ceil => onF64 (double.roundWhole .up) a
  | .f64Floor => onF64 (double.roundWhole .down) a
  | .f64Trunc => onF64 (double.roundWhole .zero) a
  | .f64Nearest => onF64 (double.roundWhole .nearest) a
  | .f64Sqrt => onF64 double.sqrt a
  | .i32Extend8S => .of32 (Word.extend 8 a.low32)
  | .i32Extend16S => .of32 (Word.extend 16 a.low32)
  | .i64Extend8S => .of64 (Word.extend 8 a.low64)
  | .i64Extend16S => .of64 (Word.extend 16 a.low64)
  | .i64Extend32S => .of64 (Word.extend 32 a.low64)
  | .v128Not => ~~~a
  | .v128AnyTrue => .ofBool (a != 0)
  | .i8x16Neg => mapLanes 8 (- ·) a
  | .i32x4Neg => mapLanes 32 (- ·) a
  | .f32x4Neg => mapLanes 32 (· ^^^ 0x80000000) a
  | .f64x2Neg => mapLanes 64 (· ^^^ 0x8000000000000000) a

namespace BinaryOp

def i32 (f : BitVec 32 → BitVec 32 → BitVec 32) (a b : Slot) : Except Trap Slot :=
  .ok (.of32 (f a.low32 b.low32))

def i64 (f : BitVec 64 → BitVec 64 → BitVec 64) (a b : Slot) : Except Trap Slot :=
  .ok (.of64 (f a.low64 b.low64))

def i32Trapping (f : BitVec 32 → BitVec 32 → Except Trap (BitVec 32)) (a b : Slot) :
    Except Trap Slot := (f a.low32 b.low32).map .of32

def i64Trapping (f : BitVec 64 → BitVec 64 → Except Trap (BitVec 64)) (a b : Slot) :
    Except Trap Slot := (f a.low64 b.low64).map .of64

def i32Test (f : BitVec 32 → BitVec 32 → Bool) (a b : Slot) : Except Trap Slot :=
  .ok (.ofBool (f a.low32 b.low32))

def i64Test (f : BitVec 64 → BitVec 64 → Bool) (a b : Slot) : Except Trap Slot :=
  .ok (.ofBool (f a.low64 b.low64))

def f32 (f : Nat → Nat → Nat) (a b : Slot) : Except Trap Slot :=
  .ok (.ofNat32 (f a.low32.toNat b.low32.toNat))

def f64 (f : Nat → Nat → Nat) (a b : Slot) : Except Trap Slot :=
  .ok (.ofNat64 (f a.low64.toNat b.low64.toNat))

def f32Test (f : Nat → Nat → Bool) (a b : Slot) : Except Trap Slot :=
  .ok (.ofBool (f a.low32.toNat b.low32.toNat))

def f64Test (f : Nat → Nat → Bool) (a b : Slot) : Except Trap Slot :=
  .ok (.ofBool (f a.low64.toNat b.low64.toNat))

def eval (op : BinaryOp) (a b : Slot) : Except Trap Slot :=
  match op with
  | .i32Eq => i32Test (· == ·) a b
  | .i32Ne => i32Test (· != ·) a b
  | .i32LtS => i32Test BitVec.slt a b
  | .i32LtU => i32Test BitVec.ult a b
  | .i32GtS => i32Test (fun x y => y.slt x) a b
  | .i32GtU => i32Test (fun x y => y.ult x) a b
  | .i32LeS => i32Test BitVec.sle a b
  | .i32LeU => i32Test BitVec.ule a b
  | .i32GeS => i32Test (fun x y => y.sle x) a b
  | .i32GeU => i32Test (fun x y => y.ule x) a b
  | .i64Eq => i64Test (· == ·) a b
  | .i64Ne => i64Test (· != ·) a b
  | .i64LtS => i64Test BitVec.slt a b
  | .i64LtU => i64Test BitVec.ult a b
  | .i64GtS => i64Test (fun x y => y.slt x) a b
  | .i64GtU => i64Test (fun x y => y.ult x) a b
  | .i64LeS => i64Test BitVec.sle a b
  | .i64LeU => i64Test BitVec.ule a b
  | .i64GeS => i64Test (fun x y => y.sle x) a b
  | .i64GeU => i64Test (fun x y => y.ule x) a b
  | .f32Eq => f32Test single.eq a b
  | .f32Ne => f32Test (fun x y => !single.eq x y) a b
  | .f32Lt => f32Test single.lt a b
  | .f32Gt => f32Test (fun x y => single.lt y x) a b
  | .f32Le => f32Test single.le a b
  | .f32Ge => f32Test (fun x y => single.le y x) a b
  | .f64Eq => f64Test double.eq a b
  | .f64Ne => f64Test (fun x y => !double.eq x y) a b
  | .f64Lt => f64Test double.lt a b
  | .f64Gt => f64Test (fun x y => double.lt y x) a b
  | .f64Le => f64Test double.le a b
  | .f64Ge => f64Test (fun x y => double.le y x) a b
  | .i32Add => i32 (· + ·) a b
  | .i32Sub => i32 (· - ·) a b
  | .i32Mul => i32 (· * ·) a b
  | .i32DivS => i32Trapping Word.divS a b
  | .i32DivU => i32Trapping Word.divU a b
  | .i32RemS => i32Trapping Word.remS a b
  | .i32RemU => i32Trapping Word.remU a b
  | .i32And => i32 (· &&& ·) a b
  | .i32Or => i32 (· ||| ·) a b
  | .i32Xor => i32 (· ^^^ ·) a b
  | .i32Shl => i32 Word.shl a b
  | .i32ShrS => i32 Word.shrS a b
  | .i32ShrU => i32 Word.shrU a b
  | .i32Rotl => i32 Word.rotl a b
  | .i32Rotr => i32 Word.rotr a b
  | .i64Add => i64 (· + ·) a b
  | .i64Sub => i64 (· - ·) a b
  | .i64Mul => i64 (· * ·) a b
  | .i64DivS => i64Trapping Word.divS a b
  | .i64DivU => i64Trapping Word.divU a b
  | .i64RemS => i64Trapping Word.remS a b
  | .i64RemU => i64Trapping Word.remU a b
  | .i64And => i64 (· &&& ·) a b
  | .i64Or => i64 (· ||| ·) a b
  | .i64Xor => i64 (· ^^^ ·) a b
  | .i64Shl => i64 Word.shl a b
  | .i64ShrS => i64 Word.shrS a b
  | .i64ShrU => i64 Word.shrU a b
  | .i64Rotl => i64 Word.rotl a b
  | .i64Rotr => i64 Word.rotr a b
  | .f32Add => f32 single.add a b
  | .f32Sub => f32 single.sub a b
  | .f32Mul => f32 single.mul a b
  | .f32Div => f32 single.div a b
  | .f32Min => f32 single.minimum a b
  | .f32Max => f32 single.maximum a b
  | .f32Copysign => f32 single.copysign a b
  | .f64Add => f64 double.add a b
  | .f64Sub => f64 double.sub a b
  | .f64Mul => f64 double.mul a b
  | .f64Div => f64 double.div a b
  | .f64Min => f64 double.minimum a b
  | .f64Max => f64 double.maximum a b
  | .f64Copysign => f64 double.copysign a b
  | .v128And => .ok (a &&& b)
  | .v128Or => .ok (a ||| b)
  | .v128Xor => .ok (a ^^^ b)
  | .v128AndNot => .ok (a &&& ~~~b)
  | .i8x16Add => .ok (zipLanes 8 (· + ·) a b)
  | .i8x16Sub => .ok (zipLanes 8 (· - ·) a b)
  | .i8x16Eq => .ok (zipLanes 8 (fun x y => allOnes (x == y)) a b)
  | .i16x8Add => .ok (zipLanes 16 (· + ·) a b)
  | .i16x8Sub => .ok (zipLanes 16 (· - ·) a b)
  | .i16x8Mul => .ok (zipLanes 16 (· * ·) a b)
  | .i32x4Add => .ok (zipLanes 32 (· + ·) a b)
  | .i32x4Sub => .ok (zipLanes 32 (· - ·) a b)
  | .i32x4Mul => .ok (zipLanes 32 (· * ·) a b)
  | .i32x4Eq => .ok (zipLanes 32 (fun x y => allOnes (x == y)) a b)
  | .i64x2Add => .ok (zipLanes 64 (· + ·) a b)
  | .i64x2Sub => .ok (zipLanes 64 (· - ·) a b)
  | .i64x2Mul => .ok (zipLanes 64 (· * ·) a b)
  | .f32x4Add => .ok (f32Lanes single.add a b)
  | .f32x4Sub => .ok (f32Lanes single.sub a b)
  | .f32x4Mul => .ok (f32Lanes single.mul a b)
  | .f32x4Div => .ok (f32Lanes single.div a b)
  | .f64x2Add => .ok (f64Lanes double.add a b)
  | .f64x2Sub => .ok (f64Lanes double.sub a b)
  | .f64x2Mul => .ok (f64Lanes double.mul a b)
  | .f64x2Div => .ok (f64Lanes double.div a b)
  | .i8x16Swizzle => .ok (swizzle a b)

end BinaryOp

namespace ConvertOp

/-- The whole part, if it lies in `lo ..= hi`. -/
def truncateIn (F : Format) (lo hi : Int) (bits : Nat) : Except Trap Int :=
  if F.isNan bits then .error .badConversionToInteger
  else
    match F.truncate bits with
    | some n => if lo ≤ n ∧ n ≤ hi then .ok n else .error .integerOverflow
    | none => .error .integerOverflow

def lowest (w : Nat) : Int := -((1 <<< (w - 1) : Nat) : Int)

def highest (w : Nat) : Int := ((1 <<< (w - 1) : Nat) : Int) - 1

def highestU (w : Nat) : Int := ((1 <<< w : Nat) : Int) - 1

def toI32 (n : Int) : Slot := .of32 (BitVec.ofInt 32 n)

def toI64 (n : Int) : Slot := .of64 (BitVec.ofInt 64 n)

def eval (op : ConvertOp) (a : Slot) : Except Trap Slot :=
  let f := a.low32.toNat
  let d := a.low64.toNat
  match op with
  | .i32WrapI64 => .ok (.of32 a.low32)
  | .i64ExtendI32S => .ok (.of64 (a.low32.signExtend 64))
  | .i64ExtendI32U => .ok (.of32 a.low32)
  | .i32TruncF32S => (truncateIn single (lowest 32) (highest 32) f).map toI32
  | .i32TruncF32U => (truncateIn single 0 (highestU 32) f).map toI32
  | .i32TruncF64S => (truncateIn double (lowest 32) (highest 32) d).map toI32
  | .i32TruncF64U => (truncateIn double 0 (highestU 32) d).map toI32
  | .i64TruncF32S => (truncateIn single (lowest 64) (highest 64) f).map toI64
  | .i64TruncF32U => (truncateIn single 0 (highestU 64) f).map toI64
  | .i64TruncF64S => (truncateIn double (lowest 64) (highest 64) d).map toI64
  | .i64TruncF64U => (truncateIn double 0 (highestU 64) d).map toI64
  | .i32TruncSatF32S => .ok (toI32 (single.saturate (lowest 32) (highest 32) f))
  | .i32TruncSatF32U => .ok (toI32 (single.saturate 0 (highestU 32) f))
  | .i32TruncSatF64S => .ok (toI32 (double.saturate (lowest 32) (highest 32) d))
  | .i32TruncSatF64U => .ok (toI32 (double.saturate 0 (highestU 32) d))
  | .i64TruncSatF32S => .ok (toI64 (single.saturate (lowest 64) (highest 64) f))
  | .i64TruncSatF32U => .ok (toI64 (single.saturate 0 (highestU 64) f))
  | .i64TruncSatF64S => .ok (toI64 (double.saturate (lowest 64) (highest 64) d))
  | .i64TruncSatF64U => .ok (toI64 (double.saturate 0 (highestU 64) d))
  | .f32ConvertI32S => .ok (.ofNat32 (single.ofInt a.low32.toInt))
  | .f32ConvertI32U => .ok (.ofNat32 (single.ofInt a.low32.toNat))
  | .f32ConvertI64S => .ok (.ofNat32 (single.ofInt a.low64.toInt))
  | .f32ConvertI64U => .ok (.ofNat32 (single.ofInt a.low64.toNat))
  | .f64ConvertI32S => .ok (.ofNat64 (double.ofInt a.low32.toInt))
  | .f64ConvertI32U => .ok (.ofNat64 (double.ofInt a.low32.toNat))
  | .f64ConvertI64S => .ok (.ofNat64 (double.ofInt a.low64.toInt))
  | .f64ConvertI64U => .ok (.ofNat64 (double.ofInt a.low64.toNat))
  | .f32DemoteF64 => .ok (.ofNat32 (double.convert single d))
  | .f64PromoteF32 => .ok (.ofNat64 (single.convert double f))
  | .i32ReinterpretF32 | .f32ReinterpretI32 => .ok (.of32 a.low32)
  | .i64ReinterpretF64 | .f64ReinterpretI64 => .ok (.of64 a.low64)

end ConvertOp

/-- The slot of a loaded number: narrow loads are extended to the width of their type. -/
def LoadKind.slot (kind : LoadKind) (n : Nat) : Slot :=
  if kind.signed then
    let narrow := BitVec.ofNat (8 * kind.width) n
    match kind.resultTy with
    | .i64 => .of64 (narrow.signExtend 64)
    | _ => .of32 (narrow.signExtend 32)
  else BitVec.ofNat 128 n

end Wasmill.Ssa

import Wasmill.Hex
import Wasmill.Ieee.Arith
import Wasmill.Ieee.Decimal
import Wasmill.ValType

/-! Values and the slots that carry them.

A `Val` knows its type; floats are kept as patterns. A `Slot` is 128 untyped bits: a narrower value
lies in the low bits under zeros, and `Slot.toVal` reads it back at a type. -/
namespace Wasmill
open Ieee

inductive Val
  | i32 (v : BitVec 32)
  | i64 (v : BitVec 64)
  | f32 (bits : BitVec 32)
  | f64 (bits : BitVec 64)
  | v128 (bits : BitVec 128)
  deriving DecidableEq, Repr, Inhabited

abbrev Slot := BitVec 128

namespace Slot

def low32 (s : Slot) : BitVec 32 := s.setWidth 32

def low64 (s : Slot) : BitVec 64 := s.setWidth 64

def of32 (v : BitVec 32) : Slot := v.setWidth 128

def of64 (v : BitVec 64) : Slot := v.setWidth 128

def ofNat32 (n : Nat) : Slot := of32 (BitVec.ofNat 32 n)

def ofNat64 (n : Nat) : Slot := of64 (BitVec.ofNat 64 n)

def ofBool (b : Bool) : Slot := if b then 1 else 0

/-- The slot of an argument that was not given: a NaN for floats, zero for the rest. -/
def absent : ValType → Slot
  | .f32 => ofNat32 single.quietNan
  | .f64 => ofNat64 double.quietNan
  | .i32 | .i64 | .v128 => 0

def toVal (s : Slot) : ValType → Val
  | .i32 => .i32 s.low32
  | .i64 => .i64 s.low64
  | .f32 => .f32 s.low32
  | .f64 => .f64 s.low64
  | .v128 => .v128 s

def text (s : Slot) : String := "RawVal(" ++ hex s.toNat ++ ")"

end Slot

namespace Val

def ty : Val → ValType
  | .i32 _ => .i32
  | .i64 _ => .i64
  | .f32 _ => .f32
  | .f64 _ => .f64
  | .v128 _ => .v128

def zero : ValType → Val
  | .i32 => .i32 0
  | .i64 => .i64 0
  | .f32 => .f32 0
  | .f64 => .f64 0
  | .v128 => .v128 0

def toSlot : Val → Slot
  | .i32 v => .of32 v
  | .i64 v => .of64 v
  | .f32 bits => .of32 bits
  | .f64 bits => .of64 bits
  | .v128 bits => bits

def isNan : Val → Bool
  | .f32 bits => single.isNan bits.toNat
  | .f64 bits => double.isNan bits.toNat
  | _ => false

/-- The whole part modulo `2 ^ 32`; what is no number becomes zero. -/
def wrapWhole (F : Format) (bits : Nat) : BitVec 32 :=
  match F.truncate bits with
  | some n => BitVec.ofInt 32 n
  | none => 0

/-- The value at another type, the way arguments and results cross the module boundary: `i32`, `f32`
and `f64` convert into each other, `i64` and `v128` stand for themselves only. -/
def coerce? (v : Val) (ty : ValType) : Option Val :=
  match ty, v with
  | .i32, .f32 bits => some (.i32 (wrapWhole single bits.toNat))
  | .i32, .f64 bits => some (.i32 (wrapWhole double bits.toNat))
  | .f32, .i32 n => some (.f32 (BitVec.ofNat 32 (single.ofInt n.toInt)))
  | .f32, .f64 bits => some (.f32 (BitVec.ofNat 32 (double.convert single bits.toNat)))
  | .f64, .i32 n => some (.f64 (BitVec.ofNat 64 (double.ofInt n.toInt)))
  | .f64, .f32 bits => some (.f64 (BitVec.ofNat 64 (single.convert double bits.toNat)))
  | ty, v => if v.ty = ty then some v else none

def text : Val → String
  | .i32 v => toString v.toInt
  | .i64 v => toString v.toInt
  | .f32 bits => single.text bits.toNat
  | .f64 bits => double.text bits.toNat
  | .v128 bits => "0x" ++ hexPadded 32 bits.toNat

end Val

/-- The value of a global or the offset of a segment, before instantiation. -/
inductive InitExpr
  | const (v : Val)
  | globalGet (index : Nat)
  deriving DecidableEq, Repr, Inhabited

end Wasmill

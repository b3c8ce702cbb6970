/-! Value types, signatures and the bounds of tables and memories. -/
namespace Wasmill

inductive ValType
  | i32
  | i64
  | f32
  | f64
  | v128
  deriving DecidableEq, Repr, Inhabited

namespace ValType

def all : List ValType := [.i32, .i64, .f32, .f64, .v128]

def name : ValType → String
  | .i32 => "i32"
  | .i64 => "i64"
  | .f32 => "f32"
  | .f64 => "f64"
  | .v128 => "v128"

/-- Bytes a value takes in memory and in global data. -/
def byteSize : ValType → Nat
  | .i32 | .f32 => 4
  | .i64 | .f64 => 8
  | .v128 => 16

/-- The byte that stands for a type in code and in images. -/
def toByte : ValType → Nat
  | .i32 => 0
  | .i64 => 1
  | .f32 => 2
  | .f64 => 3
  | .v128 => 4

def ofByte? (byte : Nat) : Option ValType := all[byte]?

theorem ofByte?_toByte (ty : ValType) : ofByte? ty.toByte = some ty := by cases ty <;> rfl

end ValType

/-- Parameter types and at most one result type, compared structurally. -/
structure Sig where
  params : List ValType
  result : Option ValType
  deriving DecidableEq, Repr, Inhabited

namespace Sig

def hasI64 (sig : Sig) : Bool := sig.params.contains .i64 || sig.result == some .i64

def text (sig : Sig) : String :=
  let params := "(" ++ ", ".intercalate (sig.params.map (·.name)) ++ ")"
  match sig.result with
  | none => params
  | some ty => params ++ " -> " ++ ty.name

end Sig

/-- How small and how large a table (in elements) or a memory (in pages) may be. -/
structure Bounds where
  initial : Nat
  maximum : Option Nat
  deriving DecidableEq, Repr, Inhabited

namespace Bounds

/-- Whether an object of the given size and bounds can stand where `declared` is asked for. -/
def admits (declared : Bounds) (size : Nat) (offered : Bounds) : Bool :=
  declared.initial ≤ size &&
    match declared.maximum, offered.maximum with
    | none, _ => true
    | some most, some m => m ≤ most
    | some _, none => false

def text (noun : String) (b : Bounds) : String :=
  let maximum :=
    match b.maximum with
    | none => "None"
    | some m => s!"Some({m})"
  s!"{noun} \x7b initial: {b.initial}, maximum: {maximum} \x7d"

end Bounds

structure GlobalType where
  content : ValType
  mutable : Bool
  deriving DecidableEq, Repr, Inhabited

end Wasmill

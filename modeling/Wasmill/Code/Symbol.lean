import Wasmill.ValType

/-! Well-known entry points of the machine that code refers to by number. -/
namespace Wasmill.Code

inductive Symbol
  /-- The generic way out, one for each kind of result. -/
  | callImport (result : Option ValType)
  /-- The direct way out. -/
  | callOptimized
  | growMemory
  | currentMemory
  | handleInterrupt
  deriving DecidableEq, Repr, Inhabited

namespace Symbol

def number : Symbol → Nat
  | .callImport none => 0
  | .callImport (some ty) => ty.toByte + 1
  | .callOptimized => 6
  | .growMemory => 7
  | .currentMemory => 8
  | .handleInterrupt => 9

def count : Nat := 10

end Symbol

/-- The shared targets at the end of the code. -/
inductive StubKind
  | outOfBounds
  | interrupt
  | stackOverflow
  | throw
  deriving DecidableEq, Repr, Inhabited

/-- The offsets of the shared targets. -/
structure StubOffsets where
  outOfBounds : Nat
  interrupt : Nat
  stackOverflow : Nat
  throw : Nat
  deriving DecidableEq, Repr, Inhabited

def StubOffsets.get (s : StubOffsets) : StubKind → Nat
  | .outOfBounds => s.outOfBounds
  | .interrupt => s.interrupt
  | .stackOverflow => s.stackOverflow
  | .throw => s.throw

end Wasmill.Code

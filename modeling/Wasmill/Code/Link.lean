import Wasmill.Code.Instr
import Wasmill.Code.Symbol

/-! What has to be written into code before it can run. -/
namespace Wasmill.Code

/-- A code offset to write at `patchAt`. -/
structure InternalLink where
  patchAt : Nat
  target : Nat
  deriving DecidableEq, Repr, Inhabited

/-- The entries of the functions that an element segment puts into a table. -/
structure FuncPtrTable where
  table : Nat
  /-- The place of the table handle in global data. -/
  handle : Nat
  entries : Array (Option Nat)
  deriving DecidableEq, Repr, Inhabited

structure LinkData where
  internal : Array InternalLink := #[]
  /-- The places of each symbol, by its number. -/
  symbolic : Array (Array Nat) := Array.replicate Symbol.count #[]
  funcPtrs : Array FuncPtrTable := #[]
  deriving DecidableEq, Repr, Inhabited

/-- Writes the bytes of a list over those at `pos`. -/
def overwrite (code : ByteArray) (pos : Nat) : List UInt8 → ByteArray
  | [] => code
  | b :: rest => overwrite (code.set! pos b) (pos + 1) rest

/-- Writes a number over four bytes of code. -/
def writeU32 (code : ByteArray) (pos value : Nat) : Except Broken ByteArray :=
  if pos + 4 ≤ code.size then .ok (overwrite code pos (u32 value)) else .error (.patchSite pos)

namespace LinkData

def addSymbol (l : LinkData) (symbol : Symbol) (place : Nat) : LinkData :=
  { l with symbolic := l.symbolic.modify symbol.number (·.push place) }

/-- Everything that linking writes, as places and values, in order. -/
def patches (l : LinkData) : List (Nat × Nat) :=
  l.internal.toList.map (fun link => (link.patchAt, link.target))
    ++ (l.symbolic.toList.take Symbol.count |>.mapIdx fun number places =>
      places.toList.map fun place => (place, number)).flatten

/-- The code with everything written into it. -/
def link (l : LinkData) (code : ByteArray) : Except Broken ByteArray :=
  l.patches.foldlM (fun code (place, value) => writeU32 code place value) code

end LinkData
end Wasmill.Code

import Wasmill.Trap
import Wasmill.ValType

/-! Tables of functions.

An element knows its signature's token, where its function is entered, and the instance that owns
the function. Tokens mean something in one engine only, so a table belongs to the first engine that
uses it. Instances are meant weakly: an element does not keep its owner alive. -/
namespace Wasmill

structure FuncRef where
  token : Nat
  /-- Where the function is entered, in its owner's code. -/
  entry : Nat
  owner : Nat
  deriving DecidableEq, Inhabited

structure Table where
  bounds : Bounds
  elems : Array (Option FuncRef)
  engine : Option Nat := none
  /-- How many hold the table. -/
  handles : Nat := 1
  deriving Inhabited

namespace Table

def new (bounds : Bounds) : Table := { bounds, elems := Array.replicate bounds.initial none }

def size (t : Table) : Nat := t.elems.size

/-- The table as one of the engine; `none` if it belongs to another. -/
def bind? (t : Table) (engine : Nat) : Option Table :=
  match t.engine with
  | some bound => if bound = engine then some t else none
  | none => some { t with engine := some engine }

def fits (t : Table) (offset len : Nat) : Bool := offset + len ≤ t.size

/-- The element that an indirect call goes to. -/
def target (t : Table) (index : Nat) : Except Trap FuncRef :=
  match t.elems[index]? with
  | none => .error .tableOutOfBounds
  | some none => .error .indirectCallToNull
  | some (some elem) => .ok elem

def setElems (t : Table) (offset : Nat) : List (Option FuncRef) → Table
  | [] => t
  | elem :: rest =>
    { t with elems := t.elems.setIfInBounds offset elem }.setElems (offset + 1) rest

/-- Moves the entries of the functions that an instance owns. -/
def repoint (t : Table) (owner : Nat) (f : Nat → Nat) : Table :=
  { t with elems := t.elems.map fun elem => elem.map fun e =>
      if e.owner = owner then { e with entry := f e.entry } else e }

/-- The tokens that the elements hold, in order. -/
def tokens (t : Table) : List Nat := t.elems.toList.filterMap fun elem => elem.map (·.token)

end Table
end Wasmill

import Wasmill.Named
import Wasmill.Registry

/-! Registered signatures by name, in two registries that know nothing of each other. -/
namespace Wasmill.Registry

/-- A holder of a signature, in one of the two registries. -/
structure Handle where
  inOther : Bool
  token : Nat
  sig : Sig
  deriving DecidableEq, Inhabited

structure Handles where
  main : Registry := {}
  other : Registry := {}
  held : Named Handle := []
  /-- The token last seen under each name, also after it was let go. -/
  seen : Named Nat := []
  deriving Inhabited

namespace Handles

def onRegistry (h : Handles) (inOther : Bool) (f : Registry → Registry) : Handles :=
  if inOther then { h with other := f h.other } else { h with main := f h.main }

def release (h : Handles) (handle : Handle) : Handles :=
  h.onRegistry handle.inOther (·.release handle.token)

/-- Keeps a handle under a name; the one that had the name is let go. -/
def keep (h : Handles) (name : String) (handle : Handle) : Handles :=
  let h := (h.held.find? name).elim h h.release
  { h with held := h.held.bind name handle, seen := h.seen.bind name handle.token }

def register (h : Handles) (name : String) (sig : Sig) (inOther : Bool) : Handles × Handle :=
  let (r, token) := (if inOther then h.other else h.main).register sig
  let handle := { inOther, token, sig }
  ((h.onRegistry inOther fun _ => r).keep name handle, handle)

/-- A second holder of what a name stands for. -/
def clone (h : Handles) (name source : String) : Option (Handles × Handle) :=
  (h.held.find? source).map fun handle =>
    ((h.onRegistry handle.inOther (·.retain handle.token)).keep name handle, handle)

/-- Lets go of a name, and tells whether it was held. -/
def drop (h : Handles) (name : String) : Handles × Bool :=
  match h.held.find? name with
  | some handle => ({ h.release handle with held := h.held.unbind name }, true)
  | none => (h, false)

/-- What the main registry has under the token last seen under a name. -/
def lookup (h : Handles) (name : Option String) : Option Sig :=
  h.main.lookup ((name.bind h.seen.find?).getD nullToken)

/-- Whether two names hold the same entry of one registry. -/
def equal (h : Handles) (a b : String) : Bool :=
  match h.held.find? a, h.held.find? b with
  | some x, some y => x.token == y.token && x.inOther == y.inOther
  | _, _ => false

end Handles
end Wasmill.Registry

import Wasmill.ValType

/-! The signature registry: signatures as small numbers.

Equal signatures share one entry, which is found by its token and by its signature. An entry lives
while anything holds it: `register` and `retain` add a holder, `release` takes one away. An entry's
token is its place plus one, so no token is zero. A freed place is handed out again, the one freed
last first, before the registry grows. -/
namespace Wasmill

namespace Registry

structure Entry where
  sig : Sig
  holders : Nat
  deriving Repr

end Registry

structure Registry where
  /-- The token of every registered signature. -/
  tokens : List (Sig × Nat) := []
  entries : Array (Option Registry.Entry) := #[]
  free : List Nat := []
  deriving Repr, Inhabited

namespace Registry

/-- The token that stands for no signature. -/
def nullToken : Nat := 0

def get? (r : Registry) (token : Nat) : Option Entry :=
  if token = 0 then none else (r.entries[token - 1]?).join

def find? (r : Registry) (sig : Sig) : Option Nat := r.tokens.lookup sig

def lookup (r : Registry) (token : Nat) : Option Sig := (r.get? token).map (·.sig)

/-- The number of signatures registered. -/
def len (r : Registry) : Nat := r.tokens.length

def isEmpty (r : Registry) : Bool := r.len == 0

/-- One more holder of a token. -/
def retain (r : Registry) (token : Nat) : Registry :=
  { r with entries := r.entries.modify (token - 1) fun e =>
      e.map fun e => { e with holders := e.holders + 1 } }

/-- Puts a new entry into the place freed last, or at the end. -/
def place (r : Registry) (sig : Sig) : Registry × Nat :=
  match r.free with
  | i :: rest =>
    ({ tokens := (sig, i + 1) :: r.tokens
       entries := r.entries.setIfInBounds i (some ⟨sig, 1⟩)
       free := rest }, i + 1)
  | [] =>
    ({ r with
       tokens := (sig, r.entries.size + 1) :: r.tokens
       entries := r.entries.push (some ⟨sig, 1⟩) }, r.entries.size + 1)

/-- One more holder of a signature, with its token. -/
def register (r : Registry) (sig : Sig) : Registry × Nat :=
  match r.find? sig with
  | some token => (r.retain token, token)
  | none => r.place sig

/-- One holder of a token less; with the last one the entry is freed. -/
def release (r : Registry) (token : Nat) : Registry :=
  match r.get? token with
  | none => r
  | some e =>
    if e.holders ≤ 1 then
      { tokens := r.tokens.filter (·.1 != e.sig)
        entries := r.entries.setIfInBounds (token - 1) none
        free := (token - 1) :: r.free }
    else
      let fewer := { e with holders := e.holders - 1 }
      { r with entries := r.entries.setIfInBounds (token - 1) (some fewer) }

end Registry
end Wasmill

import Wasmill.Proofs.Registry.Holding
import Wasmill.Proofs.World.Moves

/-! Registries in order.

A registry is in order if it counts some holders. Registering and releasing keep it so, whatever is
released, and nothing else is ever done to a registry. -/
namespace Wasmill

namespace Registry
variable {r r' : Registry} {held : List (Nat × Sig)}

/-- The registry counts some holders. -/
def Ordered (r : Registry) : Prop := ∃ held, r.Counts held

/-- The same signatures have the same tokens, and each as many holders. -/
structure SameHolders (r r' : Registry) : Prop where
  get? : ∀ token, r'.get? token = r.get? token
  find? : ∀ sig, r'.find? sig = r.find? sig
  len : r'.len = r.len

theorem SameHolders.refl (r : Registry) : r.SameHolders r := ⟨fun _ => rfl, fun _ => rfl, rfl⟩

theorem ordered_empty : Ordered {} := ⟨[], counts_empty⟩

theorem Ordered.register (h : r.Ordered) (sig : Sig) : (r.register sig).1.Ordered := by
  obtain ⟨held, keeps⟩ := h
  exact ⟨_, keeps.register sig⟩

/-- A token that is not known is not released at all; of one that is known a holder goes. -/
theorem Ordered.release (h : r.Ordered) (token : Nat) : (r.release token).Ordered := by
  obtain ⟨held, keeps⟩ := h
  cases known : r.get? token with
  | none =>
    have same : r.release token = r := by rw [Registry.release, known]
    rw [same]
    exact ⟨held, keeps⟩
  | some e =>
    have mem : (token, e.sig) ∈ held := keeps.held_of_lookup (lookup_eq_some.2 ⟨e, known, rfl⟩)
    exact ⟨_, (keeps.perm (List.perm_cons_erase mem)).release⟩

/-- Registries that count the same holders know the same signatures. -/
theorem Counts.sameHolders (h : r.Counts held) (h' : r'.Counts held) : r.SameHolders r' := by
  have known : ∀ {a b : Registry}, a.Counts held → b.Counts held →
      ∀ token e, a.get? token = some e → b.get? token = some e := by
    intro a b keepsA keepsB token e is
    have mem := keepsA.held_of_lookup (lookup_eq_some.2 ⟨e, is, rfl⟩)
    obtain ⟨e', there, sig⟩ := lookup_eq_some.1 (keepsB.known token e.sig mem)
    have holders : e'.holders = e.holders :=
      (keepsB.counts token e' there).2.trans (keepsA.counts token e is).2.symm
    rw [there]
    cases e
    cases e'
    simp_all
  have get? : ∀ token, r'.get? token = r.get? token := by
    intro token
    cases is : r.get? token with
    | some e => exact known h h' token e is
    | none =>
      cases is' : r'.get? token with
      | none => rfl
      | some e => rw [known h' h token e is'] at is; cases is
  refine ⟨get?, fun sig => ?_, by rw [h.len_eq, h'.len_eq]⟩
  refine Option.ext fun token => ?_
  rw [h.find?_iff, h'.find?_iff, lookup, lookup, get?]

end Registry

namespace World
variable {w w' : World}

/-- All registries are in order. -/
def Filed (w : World) : Prop := ∀ (e : Nat) eng, w.engines[e]? = some eng → eng.registry.Ordered

namespace Filed

theorem empty : Filed {} := fun e eng is => by simp at is

variable (h : w.Filed)
include h

theorem same (engines : w'.engines = w.engines) : w'.Filed := by
  unfold Filed
  rw [engines]
  exact h

theorem onEngine {id : Nat} {f : Engine → Engine}
    (keeps : ∀ e : Engine, e.registry.Ordered → (f e).registry.Ordered) :
    (w.onEngine id f).Filed := by
  intro e eng is
  rw [World.onEngine, Array.getElem?_modify] at is
  split at is
  · obtain ⟨old, there, rfl⟩ := Option.map_eq_some_iff.1 is
    exact keeps old (h e old there)
  · exact h e eng is

theorem addEngine (config : Config) : (w.addEngine config).1.Filed := by
  intro e eng is
  rw [World.addEngine, Array.getElem?_push] at is
  split at is
  · cases is
    exact Registry.ordered_empty
  · exact h e eng is

theorem register (engine : Nat) (sig : Sig) : (w.register engine sig).1.Filed := by
  unfold World.register
  split
  · next e there =>
    -- every engine that is changed here is this one
    intro k eng is
    dsimp only [World.onEngine] at is
    rw [Array.getElem?_modify] at is
    split at is
    · obtain ⟨old, _, rfl⟩ := Option.map_eq_some_iff.1 is
      exact (h engine e there).register sig
    · exact h k eng is
  · exact h

theorem release (engine token : Nat) : (w.release engine token).Filed :=
  h.onEngine fun _ ordered => ordered.release token

end Filed

/-- Registries stay in order. -/
theorem Move.filed (move : w.Move w') (h : w.Filed) : w'.Filed := by
  cases move with
  | engine config => exact h.addEngine config
  | register engine sig => exact h.register engine sig
  | release engine token => exact h.release engine token
  | aside engines _ => exact h.same engines
  | _ => exact h.same rfl

theorem Moves.filed (moves : w.Moves w') (h : w.Filed) : w'.Filed := by
  induction moves with
  | refl => exact h
  | tail _ move ih => exact move.filed ih

end World
end Wasmill

import Wasmill.Proofs.Registry.Holding
import Wasmill.World

/-! Signatures that are held.

An engine's registry counts the holders of its tokens. A claim is one holder; `World.Counts` says
that the registries count a list of claims, whoever makes them. -/
namespace Wasmill
open Array

/-- A registered signature that is held: the engine, the token and what it stands for. -/
structure Claim where
  engine : Nat
  token : Nat
  sig : Sig

/-- What a claim is to the registry of an engine. -/
def Claim.at? (c : Claim) (engine : Nat) : Option (Nat × Sig) :=
  if c.engine = engine then some (c.token, c.sig) else none

theorem size_of_map_eq {α β : Type} {f : α → β} {xs ys : Array α} (same : ys.map f = xs.map f) :
    ys.size = xs.size := by
  have sizes := congrArg Array.size same
  rwa [size_map, size_map] at sizes

theorem map_modify_eq {α β : Type} {f : α → β} {xs : Array α} {k : Nat} {g : α → α}
    (same : ∀ x, f (g x) = f x) :
    (xs.modify k g).map f = xs.map f := by
  ext n
  · simp
  · simp only [getElem_map, getElem_modify]
    split
    · exact same _
    · rfl

namespace World
variable {w : World} {all rest : List Claim} {e : Nat}

/-- The registries count these claims. -/
def Counts (w : World) (all : List Claim) : Prop :=
  ∀ (e : Nat) eng, w.engines[e]? = some eng → eng.registry.Counts (all.filterMap (·.at? e))

theorem Counts.perm (h : w.Counts all) (same : all.Perm rest) : w.Counts rest :=
  fun e eng is => (h e eng is).perm (same.filterMap _)

theorem filterMap_at?_self {c : Claim} (own : c.engine = e) :
    (c :: rest).filterMap (·.at? e) = (c.token, c.sig) :: rest.filterMap (·.at? e) := by
  refine List.filterMap_cons_some ?_
  exact if_pos own

theorem filterMap_at?_other {c : Claim} (other : c.engine ≠ e) :
    (c :: rest).filterMap (·.at? e) = rest.filterMap (·.at? e) := by
  refine List.filterMap_cons_none ?_
  exact if_neg other

theorem Counts.release {c : Claim} (h : w.Counts (c :: rest)) :
    (w.release c.engine c.token).Counts rest := by
  intro e eng is
  have is : (w.engines.modify c.engine _)[e]? = some eng := is
  rw [getElem?_modify] at is
  split at is
  · next same =>
    obtain ⟨old, was, rfl⟩ := Option.map_eq_some_iff.1 is
    have keeps := h e old was
    rw [filterMap_at?_self same] at keeps
    exact keeps.release
  · next other =>
    have keeps := h e eng is
    rwa [filterMap_at?_other other] at keeps

theorem Counts.releaseAll {cs : List Claim} (h : w.Counts (cs ++ rest))
    (own : ∀ c ∈ cs, c.engine = e) :
    (w.releaseAll e (cs.map (·.token))).Counts rest := by
  induction cs generalizing w with
  | nil => exact h
  | cons c cs ih =>
    have released := Counts.release (show w.Counts (c :: (cs ++ rest)) from h)
    rw [own c List.mem_cons_self] at released
    exact ih released fun c mem => own c (List.mem_cons_of_mem _ mem)

theorem Counts.register (h : w.Counts all) (there : e < w.engines.size) (sig : Sig) :
    (w.register e sig).1.Counts (⟨e, (w.register e sig).2, sig⟩ :: all) := by
  obtain ⟨old, was⟩ : ∃ old, w.engines[e]? = some old := ⟨_, getElem?_eq_getElem there⟩
  have registered : w.register e sig =
      (w.onEngine e fun e => { e with registry := (old.registry.register sig).1 },
        (old.registry.register sig).2) := by
    unfold World.register
    rw [was]
  rw [registered]
  intro e' eng is
  have is : (w.engines.modify e _)[e']? = some eng := is
  rw [getElem?_modify] at is
  split at is
  · next same =>
    subst same
    rw [was] at is
    cases is
    rw [filterMap_at?_self (c := ⟨e, _, sig⟩) rfl]
    exact (h e old was).register sig
  · next other =>
    rw [filterMap_at?_other (c := ⟨e, _, sig⟩) other]
    exact h e' eng is

end World
end Wasmill

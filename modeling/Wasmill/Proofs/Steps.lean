/-! Taking apart computations that have a state and can fail. -/
namespace Wasmill.Steps
open List

variable {σ ε α β : Type} {s t : σ} {x : StateT σ (Except ε) α} {xs : Array α} {f : α → Except ε β}
  {r : β × σ} {a : α}

@[simp] theorem pure_apply (a : α) : (pure a : StateT σ (Except ε) α) s = .ok (a, s) := rfl

@[simp] theorem get_apply : (get : StateT σ (Except ε) σ) s = .ok (s, s) := rfl

@[simp] theorem set_apply : (set t : StateT σ (Except ε) PUnit) s = .ok (⟨⟩, t) := rfl

@[simp] theorem modify_apply (g : σ → σ) :
    (modify g : StateT σ (Except ε) PUnit) s = .ok (⟨⟩, g s) := rfl

/-- A step that succeeds is followed by the rest. -/
theorem bind_apply (f : α → StateT σ (Except ε) β) (first : x s = .ok (a, t)) :
    (x >>= f) s = f a t := by
  show (x s).bind (fun p => f p.1 p.2) = f a t
  rw [first]
  rfl

theorem bind_ok {f : α → StateT σ (Except ε) β} (h : (x >>= f) s = .ok r) :
    ∃ a t, x s = .ok (a, t) ∧ f a t = .ok r := by
  have h : (x s).bind (fun p => f p.1 p.2) = .ok r := h
  cases first : x s with
  | error e => rw [first] at h; cases h
  | ok p => rw [first] at h; exact ⟨p.1, p.2, rfl, h⟩

theorem bind_eq_ok {f : α → StateT σ (Except ε) β} :
    (x >>= f) s = .ok r ↔ ∃ a t, x s = .ok (a, t) ∧ f a t = .ok r :=
  ⟨bind_ok, fun ⟨_, _, first, rest⟩ => (bind_apply _ first).trans rest⟩

theorem throw_apply (e : ε) : (throw e : StateT σ (Except ε) α) s = .error e := rfl

theorem throw_bind (e : ε) (f : α → StateT σ (Except ε) β) : (throw e >>= f) = throw e := rfl

/-- A check that comes first has to pass. -/
theorem unless_eq_ok {c : Prop} [Decidable c] {e : ε} {y : StateT σ (Except ε) β} :
    (if c then throw e else y) s = .ok r ↔ ¬ c ∧ y s = .ok r := by
  split <;> simp [*, throw_apply]

theorem after_get {f : σ → StateT σ (Except ε) β} (h : (get >>= f) s = .ok r) : f s s = .ok r := h

theorem map_ok {f : α → β} (h : (f <$> x) s = .ok r) : ∃ a t, x s = .ok (a, t) ∧ r = (f a, t) := by
  obtain ⟨a, t, first, rest⟩ := bind_ok (show (x >>= fun a => pure (f a)) s = .ok r from h)
  exact ⟨a, t, first, by simpa using rest.symm⟩

theorem except_ok {x : Except ε α} {b : β} (h : (x >>= f) = .ok b) :
    ∃ a, x = .ok a ∧ f a = .ok b := by
  cases x with
  | error e => cases h
  | ok a => exact ⟨a, rfl, h⟩

/-- Going over a list succeeds if it succeeds at every element. -/
theorem mapM_ok {as : List α} {bs : List β} : as.mapM f = .ok bs ↔ as.map f = bs.map .ok := by
  induction as generalizing bs with
  | nil =>
    cases bs with
    | nil => exact ⟨fun _ => rfl, fun _ => rfl⟩
    | cons b bs => constructor <;> intro h <;> cases h
  | cons a as ih =>
    rw [mapM_cons]
    constructor
    · intro h
      obtain ⟨b, first, h⟩ := except_ok h
      obtain ⟨rest, more, h⟩ := except_ok h
      cases h
      rw [map_cons, map_cons, first, ih.1 more]
    · intro h
      cases bs with
      | nil => cases h
      | cons b bs =>
        simp only [map_cons, List.cons.injEq] at h
        rw [h.1, ih.2 h.2]
        rfl

theorem exists_of_isOk {x : Except ε α} (h : x.isOk = true) : ∃ a, x = .ok a := by
  cases x with
  | error e => cases h
  | ok a => exact ⟨a, rfl⟩

theorem lift_ok {x : Except ε α} (h : (liftM x : StateT σ (Except ε) α) s = .ok (a, t)) :
    x = .ok a ∧ t = s := by
  cases x with
  | error e => cases h
  | ok b => cases h; exact ⟨rfl, rfl⟩

theorem forM_append_ok {f : α → StateT σ (Except ε) PUnit} {first rest : List α} {u : σ}
    (h : (first ++ rest).forM f s = .ok (⟨⟩, u)) :
    ∃ t, first.forM f s = .ok (⟨⟩, t) ∧ rest.forM f t = .ok (⟨⟩, u) := by
  induction first generalizing s with
  | nil => exact ⟨s, rfl, h⟩
  | cons a first ih =>
    obtain ⟨_, t, one, more⟩ := bind_ok h
    obtain ⟨t', two, last⟩ := ih more
    exact ⟨t', (bind_apply _ one).trans two, last⟩

/-! ### What arrays hold -/

theorem mem_toList_of_at {i : Nat} (at' : xs[i]? = some a) : a ∈ xs.toList :=
  Array.mem_toList_iff.2 (Array.mem_of_getElem? at')

theorem mem_toList_push {b : α} : a ∈ (xs.push b).toList ↔ a ∈ xs.toList ∨ a = b := by
  rw [Array.toList_push, mem_append, mem_singleton]

/-- What holds of all old elements and of the last one holds of all. -/
theorem mem_push {x y : α} {P : α → Prop} (all : ∀ x ∈ xs.toList, P x) (last : P y)
    (mem : x ∈ (xs.push y).toList) : P x := by
  rcases mem_toList_push.1 mem with mem | rfl
  · exact all x mem
  · exact last

end Wasmill.Steps

/-! Computations that keep what they did before they failed.

`Leads x s Q E`: from the state `s` the computation either succeeds with an answer and a state of
which `Q` holds, or fails with an error and a state of which `E` holds. -/
namespace Wasmill.Steps

/-- How a computation ends that starts in `s`. It is not unfolded by itself, since that would run
it. -/
@[irreducible] def Leads {σ ε α : Type} (x : ExceptT ε (StateM σ) α) (s : σ) (Q : α → σ → Prop)
    (E : ε → σ → Prop) : Prop :=
  match x s with
  | (.ok a, t) => Q a t
  | (.error e, t) => E e t

variable {σ ε α β : Type} {s : σ} {Q Q' : α → σ → Prop} {E E' : ε → σ → Prop}
  {x : ExceptT ε (StateM σ) α} {f : α → ExceptT ε (StateM σ) β} {P : σ → Prop}

@[simp] theorem leads_pure {a : α} : Leads (pure a : ExceptT ε (StateM σ) α) s Q E ↔ Q a s := by
  unfold Leads
  rfl

@[simp] theorem leads_throw {e : ε} : Leads (throw e : ExceptT ε (StateM σ) α) s Q E ↔ E e s := by
  unfold Leads
  rfl

@[simp] theorem leads_get {Q : σ → σ → Prop} :
    Leads (get : ExceptT ε (StateM σ) σ) s Q E ↔ Q s s := by
  unfold Leads
  rfl

@[simp] theorem leads_set {Q : PUnit → σ → Prop} {t : σ} :
    Leads (set t : ExceptT ε (StateM σ) PUnit) s Q E ↔ Q ⟨⟩ t := by
  unfold Leads
  rfl

@[simp] theorem leads_modify {Q : PUnit → σ → Prop} {f : σ → σ} :
    Leads (modify f : ExceptT ε (StateM σ) PUnit) s Q E ↔ Q ⟨⟩ (f s) := by
  unfold Leads
  rfl

@[simp] theorem leads_bind {Q : β → σ → Prop} :
    Leads (x >>= f) s Q E ↔ Leads x s (fun a t => Leads (f a) t Q E) E := by
  have run : (x >>= f) s = match x s with
      | (.ok a, t) => f a t
      | (.error e, t) => (.error e, t) := by
    show (x s >>= fun r => ExceptT.bindCont f r.1 r.2) = _
    rcases x s with ⟨_ | _, t⟩ <;> rfl
  unfold Leads
  rw [run]
  rcases x s with ⟨e | a, t⟩ <;> rfl

@[simp] theorem leads_ite {c : Prop} [Decidable c] {y : ExceptT ε (StateM σ) α} :
    Leads (if c then x else y) s Q E ↔ if c then Leads x s Q E else Leads y s Q E := by
  split <;> rfl

theorem leads_tryCatch {f : ε → ExceptT ε (StateM σ) α} :
    Leads (tryCatch x f) s Q E ↔ Leads x s Q fun e t => Leads (f e) t Q E := by
  have run : (tryCatch x f) s = match x s with
      | (.ok a, t) => (.ok a, t)
      | (.error e, t) => f e t := by
    simp only [tryCatch, tryCatchThe, MonadExceptOf.tryCatch, ExceptT.tryCatch, ExceptT.mk, bind,
      StateT.bind]
    rcases x s with ⟨_ | _, t⟩ <;> rfl
  unfold Leads
  rw [run]
  rcases x s with ⟨e | a, t⟩ <;> rfl

theorem leads_lift {r : Except ε α} :
    Leads (liftM r : ExceptT ε (StateM σ) α) s Q E ↔ match r with
      | .ok a => Q a s
      | .error e => E e s := by
  unfold Leads
  cases r <;> rfl

section
variable (h : Leads x s Q E)
include h

theorem Leads.imp (ok : ∀ a t, Q a t → Q' a t) (bad : ∀ e t, E e t → E' e t) : Leads x s Q' E' := by
  unfold Leads at *
  rcases is : x s with ⟨e | a, t⟩
  · rw [is] at h
    exact bad e t h
  · rw [is] at h
    exact ok a t h

theorem Leads.bind {Q' : β → σ → Prop} (next : ∀ a t, Q a t → Leads (f a) t Q' E) :
    Leads (x >>= f) s Q' E :=
  leads_bind.2 (h.imp next fun _ _ bad => bad)

theorem Leads.ok {a : α} {t : σ} (is : x s = (.ok a, t)) : Q a t := by
  unfold Leads at h
  rwa [is] at h

theorem Leads.error {e : ε} {t : σ} (is : x s = (.error e, t)) : E e t := by
  unfold Leads at h
  rwa [is] at h

end

theorem leads_any : Leads x s (fun _ _ => True) (fun _ _ => True) := by
  unfold Leads
  split <;> trivial

theorem leads_eq : Leads x s (fun a t => x s = (.ok a, t)) fun e t => x s = (.error e, t) := by
  unfold Leads
  split <;> assumption

theorem Leads.and (h : Leads x s Q E) (h' : Leads x s Q' E') :
    Leads x s (fun a t => Q a t ∧ Q' a t) fun e t => E e t ∧ E' e t := by
  unfold Leads at *
  split at h <;> rename_i is <;> rw [is] at h' <;> exact ⟨h, h'⟩

theorem Leads.exists_ok (h : Leads x s Q (fun _ _ => False)) : ∃ a t, x s = (.ok a, t) ∧ Q a t := by
  unfold Leads at h
  rcases is : x s with ⟨e | a, t⟩
  · rw [is] at h
    exact h.elim
  · rw [is] at h
    exact ⟨a, t, rfl, h⟩

theorem Leads.exists_error (h : Leads x s (fun _ _ => False) E) :
    ∃ e t, x s = (.error e, t) ∧ E e t := by
  unfold Leads at h
  rcases is : x s with ⟨e | a, t⟩
  · rw [is] at h
    exact ⟨e, t, rfl, h⟩
  · rw [is] at h
    exact h.elim

/-- What holds of the state however the computation ends may be weakened. -/
theorem leads_state : Leads x s (fun _ => P) (fun _ => P) ↔ P (x s).2 := by
  unfold Leads
  rcases x s with ⟨e | a, t⟩ <;> rfl

/-- A computation keeps what holds of the state, however it ends. -/
theorem Leads.state (h : Leads x s (fun _ => P) (fun _ => P)) : P (x s).2 := leads_state.1 h

/-! ### What becomes of the state -/

/-- A relation between a state and what becomes of it, step after step. -/
class Lasting (R : σ → σ → Prop) : Prop where
  refl (s : σ) : R s s
  trans {s t u : σ} : R s t → R t u → R s u

instance : Lasting (@Eq σ) := ⟨Eq.refl, .trans⟩

/-- However the computation ends, only that becomes of the state. It fails with such errors only. -/
class Respects (R : σ → σ → Prop) (E : ε → Prop) (x : ExceptT ε (StateM σ) α) : Prop where
  leads (s : σ) : Leads x s (fun _ => R s) (fun e t => R s t ∧ E e)

namespace Respects
variable {R : σ → σ → Prop} {E : ε → Prop} {y : ExceptT ε (StateM σ) α}

theorem state (R : σ → σ → Prop) (E : ε → Prop) [h : Respects R E x] : R s (x s).2 :=
  ((h.leads s).imp (fun _ _ => id) fun _ _ => And.left).state (P := R s)

theorem modify {f : σ → σ} (moves : ∀ s, R s (f s)) : Respects R E
    (modify f : ExceptT ε (StateM σ) PUnit) :=
  ⟨fun s => leads_modify.2 (moves s)⟩

instance {c : Prop} [Decidable c] [Respects R E x] [Respects R E y] :
    Respects R E (if c then x else y) := by
  split <;> infer_instance

theorem mono {R' : σ → σ → Prop} (le : ∀ s t, R s t → R' s t) [Respects R E x] : Respects R' E x :=
  ⟨fun s => (Respects.leads (R := R) s).imp (fun _ t => le s t) fun _ t => And.imp_left (le s t)⟩

/-- How a computation ends, with what becomes of the state besides. -/
theorem and (respects : Respects R E x) {F : ε → σ → Prop} (h : Leads x s Q F) :
    Leads x s (fun a t => R s t ∧ Q a t) (fun e t => R s t ∧ F e t) :=
  ((respects.leads s).and h).imp (fun _ _ both => both) fun _ _ both => ⟨both.1.1, both.2⟩

variable [Lasting R]

theorem after {t : σ} (moved : R s t) [Respects R E x] :
    Leads x t (fun _ => R s) (fun e t => R s t ∧ E e) :=
  (Respects.leads t).imp (fun _ _ => Lasting.trans moved) fun _ _ =>
    And.imp_left (Lasting.trans moved)

instance (a : α) : Respects R E (pure a : ExceptT ε (StateM σ) α) :=
  ⟨fun s => leads_pure.2 (Lasting.refl s)⟩

instance (e : ε) : Respects R (fun _ => True) (throw e : ExceptT ε (StateM σ) α) :=
  ⟨fun s => leads_throw.2 ⟨Lasting.refl s, trivial⟩⟩

instance (r : Except ε α) : Respects R (fun _ => True) (liftM r : ExceptT ε (StateM σ) α) := by
  refine ⟨fun s => leads_lift.2 ?_⟩
  cases r with
  | ok a => exact Lasting.refl s
  | error e => exact ⟨Lasting.refl s, trivial⟩

instance : Respects R E (get : ExceptT ε (StateM σ) σ) := ⟨fun s => leads_get.2 (Lasting.refl s)⟩

instance bind [Respects R E x] [∀ a, Respects R E (f a)] : Respects R E (x >>= f) :=
  ⟨fun s =>
    leads_bind.2 ((Respects.leads s).imp (fun _ _ moved => after moved) fun _ _ failed => failed)⟩

instance {f : ε → ExceptT ε (StateM σ) α} [Respects R E x] [∀ e, Respects R E (f e)] :
    Respects R E (tryCatch x f) :=
  ⟨fun s => leads_tryCatch.2
    ((Respects.leads (E := E) s).imp (fun _ _ moved => moved) fun _ _ failed => after failed.1)⟩

/-- What comes after a step is looked at with its answer. -/
theorem seq [Respects R E x] (rest : ∀ a, Respects R E (f a)) : Respects R E (x >>= f) := bind

instance [∀ a, Respects R E (f a)] (as : List α) : Respects R E (as.mapM f) := by
  induction as with
  | nil => rw [List.mapM_nil]; infer_instance
  | cons a as ih => rw [List.mapM_cons]; infer_instance

instance {f : α → ExceptT ε (StateM σ) PUnit} [∀ a, Respects R E (f a)] (as : List α) :
    Respects R E (as.forM f) := by
  induction as with
  | nil => exact inferInstanceAs (Respects R E (pure _))
  | cons a as ih => exact inferInstanceAs (Respects R E (f a >>= fun _ => as.forM f))

end Respects

end Wasmill.Steps

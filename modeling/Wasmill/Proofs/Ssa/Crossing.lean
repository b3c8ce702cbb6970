import Wasmill.Proofs.Ssa.Closing
import Wasmill.Proofs.Ssa.Run

/-! Reading values, and going along edges, in a function that grew out of another one. -/
namespace Wasmill.Ssa
open Array List
variable {vs : List Value} {xs : List Slot} {st : State}

/-- Which way an exit goes does not depend on where its edges lead. -/
theorem Exit.depart_of_bare {a b : Exit} (same : a.bare = b.bare) (f : Function) (vals : Slots) :
    a.depart f vals = b.depart f vals := by
  cases a <;> cases b <;> simp_all [Exit.bare, Exit.depart]
  next v targets _ _ others _ =>
    have sizes : targets.size = others.size := by simpa using congrArg Array.size same.2
    rw [sizes]

namespace Function
variable {f g : Function} {vals vals' : Slots} {ps : List Value} {r : EdgeRef}
  {v : Value} {i n : Nat}

/-! ### Reading -/

theorem readAll_nil : f.readAll vals [] = some [] := rfl

theorem readAll_append_eq_some {ws : List Value} : f.readAll vals (vs ++ ws) = some xs ↔
      ∃ ys zs, f.readAll vals vs = some ys ∧ f.readAll vals ws = some zs ∧ xs = ys ++ zs := by
  induction vs generalizing xs with
  | nil => simp [readAll_nil, eq_comm]
  | cons v vs ih =>
    rw [cons_append, readAll_cons_eq_some]
    constructor
    · rintro ⟨x, rest, head, tail, rfl⟩
      obtain ⟨ys, zs, one, two, rfl⟩ := ih.1 tail
      exact ⟨x :: ys, zs, readAll_cons_eq_some.2 ⟨x, ys, head, one, rfl⟩, two, rfl⟩
    · rintro ⟨ys, zs, one, two, rfl⟩
      obtain ⟨x, rest, head, tail, rfl⟩ := readAll_cons_eq_some.1 one
      exact ⟨x, rest ++ zs, head, ih.2 ⟨rest, zs, tail, two, rfl⟩, rfl⟩

theorem readAll_length (h : f.readAll vals vs = some xs) : xs.length = vs.length := by
  induction vs generalizing xs with
  | nil => cases h; rfl
  | cons v vs ih =>
    obtain ⟨x, rest, -, tail, rfl⟩ := readAll_cons_eq_some.1 h
    simp [ih tail]

theorem readAll_getElem? (h : f.readAll vals vs = some xs) (at' : vs[i]? = some v) :
    f.read vals v = xs[i]? := by
  induction vs generalizing xs i with
  | nil => simp at at'
  | cons w vs ih =>
    obtain ⟨x, rest, head, tail, rfl⟩ := readAll_cons_eq_some.1 h
    cases i with
    | zero => cases (by simpa using at' : w = v); simpa using head
    | succ i => simpa using ih tail (by simpa using at')

/-- All values can be read once each of them can. -/
theorem readAll_of_each (size : xs.length = vs.length)
    (each : ∀ (i : Nat) (v : Value), vs[i]? = some v → f.read vals v = xs[i]?) :
    f.readAll vals vs = some xs := by
  induction vs generalizing xs with
  | nil => rw [eq_nil_of_length_eq_zero size]; rfl
  | cons v vs ih =>
    cases xs with
    | nil => simp at size
    | cons x xs =>
      refine readAll_cons_eq_some.2 ⟨x, xs, by simpa using each 0 v rfl, ?_, rfl⟩
      exact ih (by simpa using size) fun i w at' => by
        simpa using each (i + 1) w (by simpa using at')

theorem readAll_isSome (each : ∀ v ∈ vs, ∃ x, f.read vals v = some x) :
    ∃ xs, f.readAll vals vs = some xs := by
  induction vs with
  | nil => exact ⟨[], rfl⟩
  | cons v vs ih =>
    obtain ⟨x, head⟩ := each v mem_cons_self
    obtain ⟨xs, tail⟩ := ih fun w mem => each w (mem_cons_of_mem v mem)
    exact ⟨x :: xs, readAll_cons_eq_some.2 ⟨x, xs, head, tail, rfl⟩⟩

theorem readAll_congr (same : ∀ v ∈ vs, g.read vals' v = f.read vals v) :
    g.readAll vals' vs = f.readAll vals vs := by
  induction vs with
  | nil => rfl
  | cons v vs ih =>
    rw [readAll_cons, readAll_cons, same v mem_cons_self,
      ih fun w mem => same w (mem_cons_of_mem v mem)]

/-- Older values are read as before where they are kept. -/
theorem read_of_kept (sound : f.Sound) {v : Nat} (kept : ∀ w : Nat, w < n → vals' w = vals w)
    (lt : v < n) : f.read vals' v = f.read vals v :=
  kept _ (Nat.lt_of_le_of_lt (resolve_le sound.descending v) lt)

theorem readAll_of_kept (sound : f.Sound) (kept : ∀ w : Nat, w < n → vals' w = vals w)
    (lt : ∀ v : Nat, v ∈ vs → v < n) :
    f.readAll vals' vs = f.readAll vals vs :=
  readAll_congr fun v mem => read_of_kept sound kept (lt v mem)

/-! ### Assigning parameters -/

theorem assignAll_of_not_mem {w : Nat} (own : ∀ p ∈ ps, f.resolve p = p)
    (apart : w ∉ ps) : f.assignAll vals ps xs w = vals w := by
  induction ps generalizing xs with
  | nil => rfl
  | cons p ps ih =>
    cases xs with
    | nil => rfl
    | cons x xs =>
      have other : w ≠ p := fun same => apart (same ▸ mem_cons_self)
      rw [assignAll, assign, own p mem_cons_self, if_neg other]
      exact ih (fun q mem => own q (mem_cons_of_mem p mem))
        fun mem => apart (mem_cons_of_mem p mem)

theorem assignAll_getElem? (own : ∀ p ∈ ps, f.resolve p = p) (once : ps.Nodup)
    (size : xs.length = ps.length) {p : Value}
    (at' : ps[i]? = some p) : f.assignAll vals ps xs p = xs[i]? := by
  induction ps generalizing xs i with
  | nil => simp at at'
  | cons q ps ih =>
    cases xs with
    | nil => simp at size
    | cons x xs =>
      rw [assignAll, assign, own q mem_cons_self]
      obtain ⟨apart, once⟩ := nodup_cons.1 once
      cases i with
      | zero => cases (by simpa using at' : q = p); simp
      | succ i =>
        have at' : ps[i]? = some p := by simpa using at'
        have other : p ≠ q := fun same => apart (same ▸ List.mem_of_getElem? at')
        rw [if_neg other, ih (fun r mem => own r (mem_cons_of_mem q mem)) once
          (by simpa using size) at']
        rfl

/-- What going along an edge to `t` does. Its parameters, those of an earlier function `g`, read as
the arguments that were passed for them then; some of them may have become aliases since. -/
theorem take_carries (regular : f.Regular) {t : Nat} {args args' : Array Value}
    (carries : Carries g f t args args') (size : args.size = (g.block t).params.size)
    (reads : f.readAll vals args.toList = some xs) :
    ∃ st, f.take vals ⟨t, args'⟩ = some st ∧ st.block = t ∧ st.index = 0 ∧
      f.readAll st.vals (g.block t).params.toList = some xs ∧ ∀ v : Nat, v ∉ (f.block t).params →
        st.vals v = vals v := by
  have size' := carries.size size
  have own : ∀ p ∈ (f.block t).params.toList, f.resolve p = p := fun p mem =>
    resolve_of_none (regular.param_own t p (mem_def.2 mem))
  -- a parameter that is left has its argument still
  have passed : ∀ j q a : Nat, (f.block t).params[j]? = some q → args'[j]? = some a →
      ∃ i : Nat, (g.block t).params[i]? = some q ∧ args[i]? = some a := by
    intro j q a here gives
    obtain ⟨i, at'⟩ := Array.mem_iff_getElem?.1 (carries.subset q (Array.mem_of_getElem? here))
    have inside : i < args.size := by
      rw [size]; exact (Array.getElem?_eq_some_iff.1 at').1
    obtain ⟨a', gave⟩ : ∃ a', args[i]? = some a' := ⟨_, Array.getElem?_eq_getElem inside⟩
    rcases carries.each i q a' at' gave with ⟨k, there, gives'⟩ | ⟨-, below⟩
    · have same : k = j := by
        rw [← getElem?_toList] at here there
        obtain ⟨lt, -⟩ := List.getElem?_eq_some_iff.1 here
        exact ((getElem?_inj lt (regular.param_once t)).1 (here.trans there.symm)).symm
      subst same
      rw [gives] at gives'
      cases gives'
      exact ⟨i, at', gave⟩
    · have mem := Array.mem_of_getElem? here
      have := below q mem
      rw [own q (mem_def.1 mem)] at this
      exact absurd this (Nat.lt_irrefl _)
  have count : xs.length = args.size := by simpa using readAll_length reads
  have gives : ∀ i a : Nat, args[i]? = some a → f.read vals a = xs[i]? := fun i a at' =>
    readAll_getElem? reads (by simpa using at')
  obtain ⟨ys, reads'⟩ : ∃ ys, f.readAll vals args'.toList = some ys := by
    refine readAll_isSome fun a mem => ?_
    obtain ⟨j, at'⟩ := Array.mem_iff_getElem?.1 (mem_def.2 mem)
    obtain ⟨lt, -⟩ := Array.getElem?_eq_some_iff.1 at'
    obtain ⟨i, -, gave⟩ := passed j _ a (Array.getElem?_eq_getElem (size' ▸ lt)) at'
    have inside : i < xs.length := by rw [count]; exact (Array.getElem?_eq_some_iff.1 gave).1
    exact ⟨xs[i], by rw [gives i a gave, List.getElem?_eq_getElem inside]⟩
  have count' : ys.length = (f.block t).params.toList.length := by
    have := readAll_length reads'
    simpa [size'] using this
  refine ⟨{ block := t, index := 0, vals := f.assignAll vals (f.block t).params.toList ys },
    by simp [take, size', reads'], rfl, rfl, readAll_of_each (by simp [count, size]) ?_, ?_⟩
  · intro i p at'
    have at' : (g.block t).params[i]? = some p := by simpa using at'
    have inside : i < args.size := by rw [size]; exact (Array.getElem?_eq_some_iff.1 at').1
    obtain ⟨a, gave⟩ : ∃ a, args[i]? = some a := ⟨_, Array.getElem?_eq_getElem inside⟩
    show f.read (f.assignAll vals (f.block t).params.toList ys) p = xs[i]?
    rw [← gives i a gave]
    rcases carries.each i p a at' gave with ⟨j, there, gives'⟩ | ⟨same, below⟩
    · rw [read, own p (mem_def.1 (Array.mem_of_getElem? there))]
      rw [assignAll_getElem? own (regular.param_once t) count' (i := j) (by simpa using there)]
      exact (readAll_getElem? reads' (by simpa using gives')).symm
    · rw [read, assignAll_of_not_mem own fun mem => ?_, same]
      · rfl
      · exact Nat.lt_irrefl _ (below _ (mem_def.2 mem))
  · intro v apart
    exact assignAll_of_not_mem own fun mem => apart (mem_def.2 mem)

/-- At its exit, the block is left by the edge `r`. -/
def Leaves (f : Function) (st : State) (r : EdgeRef) : Prop :=
  r.block = st.block ∧ (f.block st.block).steps[st.index]? = none ∧
    ∃ l, (f.block st.block).leave = some l ∧ l.exit.depart f st.vals = some (.edge r.index)

theorem Leaves.next {st' : State} (leaves : f.Leaves st r) {e : Edge} (edge : f.edge? r = some e)
    (taken : f.take st.vals e = some st') : f.next st = .on st' := by
  obtain ⟨here, finished, l, left, departs⟩ := leaves
  have crossed : f.cross st r.index = some st' := by
    have same : (⟨st.block, r.index⟩ : EdgeRef) = r := by rw [← here]
    rw [cross, same, edge]
    exact taken
  simp [Function.next, finished, left, leaving, departs, crossed]

/-- Along an edge that passes nothing. -/
theorem Leaves.next_bare {b : Nat} (leaves : f.Leaves st r) (sound : f.Sound) (grows : g.Grows f)
    (edge : g.edge? r = some ⟨b, #[]⟩) (params : (g.block b).params = #[]) :
    f.next st = .on ⟨b, 0, st.vals⟩ := by
  obtain ⟨args', edge', carries⟩ := grows.edge edge
  have nothing : f.readAll st.vals (#[] : Array Value).toList = some [] := rfl
  obtain ⟨st', taken, block, index, -, others⟩ :=
    take_carries sound.toRegular carries (by rw [params]) nothing
  have same : st'.vals = st.vals := funext fun w => others w fun mem => by
    have := carries.subset w mem
    simp [params] at this
  obtain ⟨b', i', vals'⟩ := st'
  cases block
  cases index
  cases same
  exact leaves.next edge' taken

end Function

/-! ### Runs -/

section
variable {σ ε : Type} {f : Function} {O : Outside σ ε} {m n : Nat} {p q r : Progress σ ε}

/-- From `p` the run comes to `q` in at least `n` steps. -/
def Reaches (f : Function) (O : Outside σ ε) (n : Nat) (p q : Progress σ ε) : Prop :=
  ∃ m, n ≤ m ∧ Progress.run f O m p = q

theorem Reaches.refl (p : Progress σ ε) : Reaches f O 0 p p := ⟨0, Nat.le_refl _, rfl⟩

theorem Reaches.trans (first : Reaches f O m p q) (second : Reaches f O n q r) :
    Reaches f O (m + n) p r := by
  obtain ⟨i, le, here⟩ := first
  obtain ⟨j, le', there⟩ := second
  exact ⟨i + j, Nat.add_le_add le le', by rw [Progress.run_add, here, there]⟩

theorem Reaches.mono (reaches : Reaches f O n p q) (le : m ≤ n) : Reaches f O m p q := by
  obtain ⟨i, le', here⟩ := reaches
  exact ⟨i, Nat.le_trans le le', here⟩

theorem Reaches.step (next : Progress.step f O p = q) : Reaches f O 1 p q :=
  ⟨1, Nat.le_refl _, next⟩

theorem Reaches.on {st' : State} {h : History σ} (next : f.next st = .on st') :
    Reaches f O 1 (.running st h) (.running st' h) := .step (by simp [Progress.step, next])

end
end Wasmill.Ssa

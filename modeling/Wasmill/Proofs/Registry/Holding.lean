import Mathlib.Data.Finset.Card
import Wasmill.Proofs.Named
import Wasmill.Registry.Handles

/-! Who holds registered signatures.

`Registry.Keeps` says of a registry which holders it counts. Registering, retaining and releasing
add and take away one; from what is kept it follows that tokens are as good as signatures. Main
statement: however handles are registered, cloned and dropped, each registry counts exactly those
that are left. -/
namespace Wasmill.Registry
open List
variable {r' : Registry} {tokens : List (Sig × Nat)} {x : Option Entry}

/-- The registry counts these holders, each a token and the signature that it stands for. -/
structure Counts (r : Registry) (held : List (Nat × Sig)) : Prop where
  /-- The places that are handed out again are the empty ones, each once. -/
  free : ∀ i : Nat, i ∈ r.free ↔ r.entries[i]? = some none
  once : r.free.Nodup
  /-- Signatures lead to their entries, and entries to their signatures. -/
  inverse : ∀ sig token, (sig, token) ∈ r.tokens ↔ r.lookup token = some sig
  keys : (r.tokens.map (·.1)).Nodup
  counts : ∀ token e, r.get? token = some e → 0 < e.holders ∧
    e.holders = (held.map (·.1)).count token
  known : ∀ token sig, (token, sig) ∈ held → r.lookup token = some sig

variable {r : Registry} {held rest : List (Nat × Sig)} {token i : Nat} {sig : Sig} {e : Entry}

theorem get?_succ : r.get? (i + 1) = (r.entries[i]?).join := rfl

theorem get?_eq_some : r.get? token = some e ↔ ∃ i, token = i + 1 ∧
    r.entries[i]? = some (some e) := by
  cases token with
  | zero => simp [get?]
  | succ i => simp [get?_succ, Option.join_eq_some_iff]

theorem lookup_eq_some : r.lookup token = some sig ↔ ∃ e, r.get? token = some e ∧ e.sig = sig :=
  Option.map_eq_some_iff

theorem counts_empty : Counts {} [] where
  free i := by simp
  once := nodup_nil
  inverse sig token := by simp [lookup, get?]
  keys := nodup_nil
  counts token e is := by simp [get?] at is
  known token sig mem := by cases mem

theorem Counts.perm (h : r.Counts held) (same : held.Perm rest) : r.Counts rest := by
  refine { h with counts := fun token e is => ?_, known :=
    fun token sig mem => h.known token sig (same.mem_iff.2 mem) }
  rw [← (same.map _).count_eq]
  exact h.counts token e is

/-! ### What tokens stand for -/

theorem mem_of_lookup (is : tokens.lookup sig = some token) : (sig, token) ∈ tokens := by
  obtain ⟨before, after, rfl, -⟩ := lookup_eq_some_iff.1 is
  exact mem_append_right _ mem_cons_self

theorem lookup_of_mem (keys : (tokens.map (·.1)).Nodup) (mem : (sig, token) ∈ tokens) :
    tokens.lookup sig = some token := by
  obtain ⟨before, after, rfl⟩ := append_of_mem mem
  refine lookup_eq_some_iff.2 ⟨before, after, rfl, fun p inside => bne_iff_ne.2 ?_⟩
  rintro rfl
  rw [map_append, map_cons, nodup_middle] at keys
  exact (nodup_cons.1 keys).1 (mem_append_left _ (mem_map.2 ⟨p, inside, rfl⟩))

theorem get?_retain (token' : Nat) (pos : token ≠ 0) : (r.retain token).get? token' =
    if token' = token then (r.get? token).map fun e =>
      { e with holders := e.holders + 1 } else r.get? token' := by
  cases token with
  | zero => exact absurd rfl pos
  | succ i =>
    cases token' with
    | zero => simp [get?]
    | succ j =>
      rw [get?_succ, get?_succ, get?_succ]
      show ((r.entries.modify i _)[j]?).join = _
      rw [Array.getElem?_modify]
      by_cases same : i = j
      · subst same
        rw [if_pos rfl, if_pos rfl]
        cases r.entries[i]? with
        | none => rfl
        | some e => cases e <;> rfl
      · rw [if_neg same, if_neg (by omega)]

theorem lookup_retain (token' : Nat) (pos : token ≠ 0) :
    (r.retain token).lookup token' = r.lookup token' := by
  unfold lookup
  rw [get?_retain token' pos]
  split
  · next same =>
    subst same
    cases r.get? token' <;> rfl
  · rfl

theorem count_cons_of_ne (ne : token ≠ i) :
    (((i, sig) :: rest).map (·.1)).count token = (rest.map (·.1)).count token := by
  rw [map_cons, count_cons, beq_eq_false_iff_ne.2 (Ne.symm ne)]
  rfl

section
variable (h : r.Counts held)
include h

theorem Counts.find?_iff : r.find? sig = some token ↔ r.lookup token = some sig := by
  rw [← h.inverse]
  exact ⟨mem_of_lookup, lookup_of_mem h.keys⟩

theorem Counts.token_pos (mem : (token, sig) ∈ held) : token ≠ nullToken := by
  rintro rfl
  cases h.known _ _ mem

/-- Two holders have one token exactly if they hold one signature. -/
theorem Counts.token_eq_iff {token' : Nat} {sig' : Sig} (mem : (token, sig) ∈ held)
    (mem' : (token', sig') ∈ held) :
    token = token' ↔ sig = sig' := by
  have one := h.known _ _ mem
  have two := h.known _ _ mem'
  constructor
  · rintro rfl
    exact Option.some.inj (one.symm.trans two)
  · rintro rfl
    exact Option.some.inj ((h.find?_iff.2 one).symm.trans (h.find?_iff.2 two))

/-- Every entry has a holder. -/
theorem Counts.held_of_lookup (is : r.lookup token = some sig) : (token, sig) ∈ held := by
  obtain ⟨e, at', rfl⟩ := lookup_eq_some.1 is
  obtain ⟨pos, counts⟩ := h.counts token e at'
  rw [counts] at pos
  obtain ⟨p, mem, rfl⟩ := mem_map.1 (count_pos_iff.1 pos)
  have same := h.known p.1 p.2 mem
  rw [is] at same
  rwa [Option.some.inj same]

/-- There are as many entries as there are signatures among those that are held. -/
theorem Counts.len_eq : r.len = (held.map (·.2)).toFinset.card := by
  have same : (r.tokens.map (·.1)).toFinset = (held.map (·.2)).toFinset := by
    ext sig
    simp only [mem_toFinset, mem_map, Prod.exists, exists_and_right, exists_eq_right]
    constructor
    · rintro ⟨token, mem⟩
      exact ⟨token, h.held_of_lookup ((h.inverse _ _).1 mem)⟩
    · rintro ⟨token, mem⟩
      exact ⟨token, (h.inverse _ _).2 (h.known _ _ mem)⟩
  rw [← same, toFinset_card_of_nodup h.keys, length_map]
  rfl

/-! ### One holder more, one holder less -/

/-- A token that is known gets one more holder. -/
theorem Counts.retain (known : r.lookup token = some sig) :
    (r.retain token).Counts ((token, sig) :: held) := by
  obtain ⟨e, at', rfl⟩ := lookup_eq_some.1 known
  obtain ⟨i, rfl, inside⟩ := get?_eq_some.1 at'
  have pos : i + 1 ≠ 0 := Nat.succ_ne_zero i
  refine ⟨?_, h.once, ?_, h.keys, ?_, ?_⟩
  · intro j
    show j ∈ r.free ↔ (r.entries.modify i _)[j]? = some none
    rw [h.free, Array.getElem?_modify]
    by_cases same : i = j
    · subst same
      simp [inside]
    · rw [if_neg same]
  · intro sig token
    rw [lookup_retain token pos]
    exact h.inverse sig token
  · intro token e' is
    rw [get?_retain token pos] at is
    by_cases same : token = i + 1
    · rw [if_pos same, at'] at is
      cases is
      obtain ⟨_, counts⟩ := h.counts _ _ at'
      subst same
      simp [counts]
    · rw [if_neg same] at is
      rw [count_cons_of_ne same]
      exact h.counts token e' is
  · intro token sig mem
    rw [lookup_retain token pos]
    rcases mem_cons.1 mem with is | mem
    · cases is
      exact known
    · exact h.known token sig mem

theorem Counts.free_lt (mem : i ∈ r.free) : i < r.entries.size :=
  (Array.getElem?_eq_some_iff.1 ((h.free i).1 mem)).1

/-- An entry of its own for a signature that has none, at a place that is empty. -/
theorem Counts.enter (new : r.find? sig = none) (tokens : r'.tokens = (sig, i + 1) :: r.tokens)
    (empty : r.get? (i + 1) = none)
    (there : r'.entries[i]? = some (some ⟨sig, 1⟩))
    (same : ∀ j, j ≠ i → r'.entries[j]? = r.entries[j]?)
    (free : ∀ j, j ∈ r'.free ↔ j ∈ r.free ∧ j ≠ i) (once : r'.free.Nodup) :
    r'.Counts ((i + 1, sig) :: held) := by
  have others : ∀ token, token ≠ i + 1 → r'.get? token = r.get? token := by
    intro token ne
    cases token with
    | zero => rfl
    | succ j => rw [get?_succ, get?_succ, same j (by omega)]
  have here : r'.get? (i + 1) = some ⟨sig, 1⟩ := by rw [get?_succ, there]; rfl
  have unheld : (held.map (·.1)).count (i + 1) = 0 := by
    refine count_eq_zero.2 fun mem => ?_
    obtain ⟨p, mem, is⟩ := mem_map.1 mem
    have known := h.known p.1 p.2 mem
    rw [is] at known
    simp [lookup, empty] at known
  have look : ∀ token, token ≠ i + 1 → r'.lookup token = r.lookup token := by
    intro token ne
    unfold lookup
    rw [others token ne]
  refine ⟨?_, once, ?_, ?_, ?_, ?_⟩
  · intro j
    rw [free, h.free]
    by_cases at' : j = i
    · subst at'
      simp [there]
    · rw [same j at']
      exact ⟨fun h => h.1, fun h => ⟨h, at'⟩⟩
  · intro sig' token
    rw [tokens, mem_cons]
    by_cases at' : token = i + 1
    · subst at'
      have none' : (sig', i + 1) ∉ r.tokens := fun mem => by
        have := (h.inverse _ _).1 mem
        simp [lookup, empty] at this
      simp only [Prod.mk.injEq, and_true, none', or_false, lookup, here, Option.map_some,
        Option.some.injEq]
      exact eq_comm
    · rw [look token at', ← h.inverse]
      simp [at']
  · rw [tokens, map_cons, nodup_cons]
    refine ⟨?_, h.keys⟩
    intro mem
    obtain ⟨p, there, is⟩ := mem_map.1 mem
    have found : r.find? p.1 = some p.2 := h.find?_iff.2 ((h.inverse _ _).1 there)
    rw [show p.1 = sig from is, new] at found
    cases found
  · intro token e is
    by_cases at' : token = i + 1
    · subst at'
      rw [here] at is
      cases is
      simp [unheld]
    · rw [others token at'] at is
      rw [count_cons_of_ne at']
      exact h.counts token e is
  · intro token sig' mem
    rcases mem_cons.1 mem with is | mem
    · cases is
      simp [lookup, here]
    · rw [look]
      · exact h.known token sig' mem
      · rintro rfl
        have := h.known _ _ mem
        simp [lookup, empty] at this

theorem Counts.place (new : r.find? sig = none) :
    (r.place sig).1.Counts (((r.place sig).2, sig) :: held) := by
  unfold Registry.place
  cases is : r.free with
  | nil =>
    refine h.enter new rfl ?_ ?_ ?_ ?_ ?_
    · simp [get?_succ]
    · simp
    · intro j ne
      rw [Array.getElem?_push, if_neg ne]
    · intro j
      simp [is]
    · exact nodup_nil
  | cons i rest =>
    have first : i ∈ r.free := by rw [is]; exact mem_cons_self
    have inside := h.free_lt first
    have once := h.once
    rw [is, nodup_cons] at once
    refine h.enter new rfl ?_ ?_ ?_ ?_ once.2
    · rw [get?_succ, (h.free i).1 first]
      rfl
    · exact Array.getElem?_setIfInBounds_self_of_lt inside
    · intro j ne
      exact Array.getElem?_setIfInBounds_ne (Ne.symm ne)
    · intro j
      rw [is, mem_cons]
      constructor
      · intro mem
        refine ⟨.inr mem, ?_⟩
        rintro rfl
        exact once.1 mem
      · rintro ⟨rfl | mem, ne⟩
        · exact absurd rfl ne
        · exact mem

/-- Registering a signature adds a holder of the token that is answered. -/
theorem Counts.register (sig : Sig) :
    (r.register sig).1.Counts (((r.register sig).2, sig) :: held) := by
  unfold Registry.register
  cases is : r.find? sig with
  | some token => exact h.retain (h.find?_iff.1 is)
  | none => exact h.place is

end

theorem get?_set_self (entries : r'.entries = r.entries.setIfInBounds i x)
    (inside : i < r.entries.size) : r'.get? (i + 1) = x := by
  rw [get?_succ, entries, Array.getElem?_setIfInBounds_self_of_lt inside]
  rfl

theorem get?_set_ne (entries : r'.entries = r.entries.setIfInBounds i x) (ne : token ≠ i + 1) :
    r'.get? token = r.get? token := by
  cases token with
  | zero => rfl
  | succ j => rw [get?_succ, get?_succ, entries, Array.getElem?_setIfInBounds_ne (by omega)]

/-- The last holder of a token goes, and the entry with it. -/
theorem Counts.close (h : r.Counts ((i + 1, e.sig) :: rest)) (at' : r.get? (i + 1) = some e)
    (last : e.holders ≤ 1)
    (tokens : r'.tokens = r.tokens.filter (·.1 != e.sig))
    (entries : r'.entries = r.entries.setIfInBounds i none)
    (free : r'.free = i :: r.free) : r'.Counts rest := by
  have known := h.known _ _ mem_cons_self
  obtain ⟨j, is, inside⟩ := get?_eq_some.1 at'
  cases is
  have lt := (Array.getElem?_eq_some_iff.1 inside).1
  obtain ⟨pos, counts⟩ := h.counts _ _ at'
  rw [map_cons, count_cons_self] at counts
  have none' : (rest.map (·.1)).count (i + 1) = 0 := by omega
  have here : r'.get? (i + 1) = none := get?_set_self entries lt
  have look : ∀ token, token ≠ i + 1 → r'.lookup token = r.lookup token := by
    intro token ne
    unfold lookup
    rw [get?_set_ne entries ne]
  refine ⟨?_, ?_, ?_, ?_, ?_, ?_⟩
  · intro j
    rw [free, entries, mem_cons, h.free]
    by_cases same : j = i
    · subst same
      simp [lt]
    · simp [Array.getElem?_setIfInBounds_ne (Ne.symm same), same]
  · have out : i ∉ r.free := by
      rw [h.free, inside]
      simp
    rw [free]
    exact nodup_cons.2 ⟨out, h.once⟩
  · intro sig token
    rw [tokens, mem_filter, h.inverse, bne_iff_ne]
    by_cases same : token = i + 1
    · subst same
      rw [known]
      unfold lookup
      rw [here]
      constructor
      · rintro ⟨is, ne⟩
        exact absurd (Option.some.inj is).symm ne
      · intro is
        cases is
    · rw [look token same]
      constructor
      · exact fun h => h.1
      · intro is
        refine ⟨is, ?_⟩
        rintro rfl
        exact same (Option.some.inj ((h.find?_iff.2 is).symm.trans (h.find?_iff.2 known)))
  · rw [tokens]
    exact (List.Sublist.map _ filter_sublist).nodup h.keys
  · intro token e' is
    by_cases same : token = i + 1
    · rw [same, here] at is
      cases is
    · rw [get?_set_ne entries same] at is
      rw [← count_cons_of_ne same]
      exact h.counts token e' is
  · intro token sig mem
    rw [look]
    · exact h.known token sig (mem_cons_of_mem _ mem)
    · rintro rfl
      exact count_eq_zero.1 none' (mem_map.2 ⟨_, mem, rfl⟩)

/-- A token that has more holders loses one. -/
theorem Counts.lessen (h : r.Counts ((i + 1, e.sig) :: rest)) (at' : r.get? (i + 1) = some e)
    (more : 1 < e.holders)
    (tokens : r'.tokens = r.tokens)
    (entries : r'.entries = r.entries.setIfInBounds i (some { e with holders := e.holders - 1 }))
    (free : r'.free = r.free) :
    r'.Counts rest := by
  obtain ⟨j, is, inside⟩ := get?_eq_some.1 at'
  cases is
  have lt := (Array.getElem?_eq_some_iff.1 inside).1
  obtain ⟨_, counts⟩ := h.counts _ _ at'
  rw [map_cons, count_cons_self] at counts
  have here := get?_set_self entries lt
  have look : ∀ token, r'.lookup token = r.lookup token := by
    intro token
    unfold lookup
    by_cases same : token = i + 1
    · rw [same, here, at']
      rfl
    · rw [get?_set_ne entries same]
  refine ⟨?_, ?_, ?_, ?_, ?_, ?_⟩
  · intro j
    rw [free, entries, h.free]
    by_cases same : j = i
    · subst same
      rw [inside, Array.getElem?_setIfInBounds_self_of_lt lt]
      simp
    · rw [Array.getElem?_setIfInBounds_ne (Ne.symm same)]
  · rw [free]
    exact h.once
  · intro sig token
    rw [tokens, look]
    exact h.inverse sig token
  · rw [tokens]
    exact h.keys
  · intro token e' is
    by_cases same : token = i + 1
    · subst same
      rw [here] at is
      cases is
      show 0 < e.holders - 1 ∧ e.holders - 1 = _
      omega
    · rw [get?_set_ne entries same] at is
      rw [← count_cons_of_ne same]
      exact h.counts token e' is
  · intro token sig mem
    rw [look]
    exact h.known token sig (mem_cons_of_mem _ mem)

/-- Releasing a token takes a holder away. -/
theorem Counts.release (h : r.Counts ((token, sig) :: rest)) : (r.release token).Counts rest := by
  obtain ⟨e, at', rfl⟩ := lookup_eq_some.1 (h.known token sig mem_cons_self)
  obtain ⟨i, rfl, _⟩ := get?_eq_some.1 at'
  unfold Registry.release
  rw [at']
  dsimp only
  split
  · next last => exact h.close at' last rfl rfl rfl
  · next more => exact h.lessen at' (Nat.lt_of_not_le more) rfl rfl rfl

end Wasmill.Registry

import Wasmill.Search

/-! What binary search finds in sorted arrays. -/
namespace Wasmill.Search
open Array

/-- Once too large, always too large. -/
def Rising (order : Nat → Ordering) : Prop := ∀ i j, i ≤ j → order i = .gt → order j = .gt

/-- The search ends on the last element that is not too large, or on the first one. -/
theorem settle_spec {order : Nat → Ordering} (rising : Rising order) (base size : Nat)
    (some' : 0 < size) :
    base ≤ settle order base size ∧ settle order base size < base + size ∧
      (settle order base size = base ∨ order (settle order base size) ≠ .gt) ∧
      ∀ j, settle order base size < j → j < base + size → order j = .gt := by
  induction size using Nat.strongRecOn generalizing base with
  | ind size ih =>
    rw [settle]
    split
    · next many =>
      have fewer : size - size / 2 < size := by omega
      have left : 0 < size - size / 2 := by omega
      dsimp only
      by_cases greater : order (base + size / 2) = .gt
      · have down : (order (base + size / 2) == .gt) = true := by simp [greater]
        rw [if_pos down]
        obtain ⟨low, high, last, above⟩ := ih _ fewer base left
        refine ⟨low, by omega, last, fun j after inside => ?_⟩
        by_cases near : j < base + (size - size / 2)
        · exact above j after near
        · exact rising (base + size / 2) j (by omega) greater
      · have up : ¬ (order (base + size / 2) == .gt) = true := by simp [greater]
        rw [if_neg up]
        obtain ⟨low, high, last, above⟩ := ih _ fewer (base + size / 2) left
        refine ⟨by omega, by omega, .inr ?_, fun j after inside => above j after (by omega)⟩
        rcases last with is | fits
        · rw [is]
          exact greater
        · exact fits
    · refine ⟨Nat.le_refl _, by omega, .inl rfl, ?_⟩
      intro j after inside
      omega

/-- The search ends on an element that is not too large, if all behind it are. -/
theorem settle_eq {order : Nat → Ordering} (rising : Rising order) {size i : Nat}
    (inside : i < size)
    (fits : order i ≠ .gt) (above : ∀ j, i < j → order j = .gt) : settle order 0 size = i := by
  obtain ⟨_, _, last, beyond⟩ := settle_spec rising 0 size (by omega)
  rcases Nat.lt_trichotomy (settle order 0 size) i with before | is | after
  · exact absurd (beyond i before (by omega)) fits
  · exact is
  · rcases last with first | low
    · omega
    · exact absurd (above _ after) low

section
variable {α : Type} {xs : Array α} {key : α → Nat} {k i : Nat} {x : α}

/-- The keys of an array grow. -/
def Sorted (key : α → Nat) (xs : Array α) : Prop :=
  ∀ (i j : Nat) (x y : α), i < j → xs[i]? = some x → xs[j]? = some y → key x < key y

theorem findKey?_of_getElem? (sorted : Sorted key xs) (is : xs[i]? = some x) :
    findKey? key (key x) xs = some x := by
  let order (j : Nat) : Ordering :=
    match xs[j]? with
    | some y => compare (key y) (key x)
    | none => .gt
  have above : ∀ j, i < j → order j = .gt := by
    intro j after
    show (match xs[j]? with
      | some y => compare (key y) (key x)
      | none => .gt) = .gt
    cases there : xs[j]? with
    | none => rfl
    | some y => exact Nat.compare_eq_gt.2 (sorted i j x y after is there)
  have rising : Rising order := by
    intro j j' le greater
    by_cases inside : j' < xs.size
    · have lower : j < xs.size := by omega
      have greater : compare (key xs[j]) (key x) = .gt := by
        simpa [order, getElem?_eq_getElem lower] using greater
      show (match xs[j']? with
        | some y => compare (key y) (key x)
        | none => .gt) = .gt
      rw [getElem?_eq_getElem inside]
      rw [Nat.compare_eq_gt] at greater
      refine Nat.compare_eq_gt.2 ?_
      rcases Nat.lt_or_eq_of_le le with lt | rfl
      · exact Nat.lt_trans greater
          (sorted j j' _ _ lt (getElem?_eq_getElem lower) (getElem?_eq_getElem inside))
      · exact greater
    · show (match xs[j']? with
        | some y => compare (key y) (key x)
        | none => .gt) = .gt
      rw [getElem?_eq_none (by omega)]
  have fits : order i ≠ .gt := by
    show (match xs[i]? with
      | some y => compare (key y) (key x)
      | none => .gt) ≠ .gt
    rw [is]
    simp
  have settled : settle order 0 xs.size = i :=
    settle_eq rising (Array.getElem?_eq_some_iff.1 is).1 fits above
  show (match xs[settle order 0 xs.size]? with
    | some y => if key y = key x then some y else none
    | none => none) = some x
  rw [settled, is]
  exact if_pos rfl

theorem findKey?_eq_some (found : findKey? key k xs = some x) : key x = k ∧ x ∈ xs := by
  unfold findKey? at found
  dsimp only at found
  split at found
  · next y is =>
    split at found
    · next same =>
      cases found
      exact ⟨same, mem_of_getElem? is⟩
    · cases found
  · cases found

/-- Where the elements that satisfy `p` come first, the search counts them. -/
theorem partitionPoint_eq {p : α → Bool} (inside : i < xs.size)
    (first : ∀ j y, j < i → xs[j]? = some y → p y = true)
    (last : ∀ j y, i ≤ j → xs[j]? = some y → p y = false) :
    partitionPoint p xs = i := by
  let order (j : Nat) : Ordering := if xs[j]?.any p then .lt else .gt
  have low : ∀ j, j < i → order j = .lt := by
    intro j lt
    have there : xs[j]? = some xs[j] := getElem?_eq_getElem (by omega)
    simp [order, there, first j _ lt there]
  have high : ∀ j, i ≤ j → order j = .gt := by
    intro j le
    cases there : xs[j]? with
    | none => simp [order, there]
    | some y => simp [order, there, last j y le there]
  have rising : Rising order := by
    intro j j' le greater
    by_cases before : j < i
    · rw [low j before] at greater
      cases greater
    · exact high j' (by omega)
  unfold partitionPoint
  rw [if_neg (by omega)]
  show (if order (settle order 0 xs.size) == .lt then settle order 0 xs.size + 1
    else settle order 0 xs.size) = i
  cases i with
  | zero =>
    obtain ⟨_, _, ends, _⟩ := settle_spec rising 0 xs.size (by omega)
    have zero : settle order 0 xs.size = 0 := by
      rcases ends with is | fits
      · exact is
      · exact absurd (high _ (Nat.zero_le _)) fits
    rw [zero, high 0 (Nat.le_refl 0)]
    rfl
  | succ i =>
    have settled : settle order 0 xs.size = i :=
      settle_eq rising (by omega) (by rw [low i (by omega)]; simp) fun j lt => high j (by omega)
    rw [settled, low i (by omega)]
    rfl

end
end Wasmill.Search

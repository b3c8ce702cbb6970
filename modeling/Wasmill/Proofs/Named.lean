import Wasmill.Named

/-! Names and what they stand for. -/
namespace Wasmill.Named
open List
variable {α : Type} {names : Named α} {name : String} {a : α}

/-- No name stands for two things. -/
def Distinct (names : Named α) : Prop := (names.map (·.1)).Nodup

theorem distinct_nil : Distinct ([] : Named α) := nodup_nil

theorem Distinct.unbind (h : names.Distinct) (name : String) : (names.unbind name).Distinct :=
  (List.Sublist.map _ filter_sublist).nodup h

theorem Distinct.bind (h : names.Distinct) (name : String) (a : α) :
    (names.bind name a).Distinct := by
  refine nodup_cons.2 ⟨?_, h.unbind name⟩
  intro mem
  obtain ⟨p, there, is⟩ := mem_map.1 mem
  have other : (p.1 != name) = true := (mem_filter.1 there).2
  exact bne_iff_ne.1 other is

theorem mem_of_find? (is : names.find? name = some a) : (name, a) ∈ names := by
  induction names with
  | nil => cases is
  | cons p names ih =>
    obtain ⟨other, b⟩ := p
    unfold find? at is ih
    rw [lookup_cons] at is
    by_cases same : name = other
    · subst same
      simp only [beq_self_eq_true, Option.some.injEq] at is
      subst is
      exact mem_cons_self
    · rw [beq_eq_false_iff_ne.2 same] at is
      exact mem_cons_of_mem _ (ih is)

theorem unbind_of_find?_eq_none (is : names.find? name = none) : names.unbind name = names := by
  refine filter_eq_self.2 fun p mem => bne_iff_ne.2 ?_
  rintro rfl
  unfold find? at is
  rw [lookup_eq_none_iff] at is
  exact absurd (is p mem) (by simp)

/-- A name that stands for something does so in one place. -/
theorem Distinct.perm_unbind (h : names.Distinct) (is : names.find? name = some a) :
    names.Perm ((name, a) :: names.unbind name) := by
  induction names with
  | nil => cases is
  | cons p names ih =>
    obtain ⟨other, b⟩ := p
    obtain ⟨new, rest⟩ := nodup_cons.1 h
    by_cases same : other = name
    · subst same
      have first : Named.find? ((other, b) :: names) other = some b := by simp [Named.find?]
      rw [first] at is
      cases is
      have gone : Named.unbind names other = names := by
        refine filter_eq_self.2 fun p mem => bne_iff_ne.2 ?_
        rintro rfl
        exact new (mem_map.2 ⟨p, mem, rfl⟩)
      have head : Named.unbind ((other, a) :: names) other = Named.unbind names other := by
        simp [Named.unbind]
      rw [head, gone]
    · have later : Named.find? ((other, b) :: names) name = Named.find? names name := by
        unfold Named.find?
        rw [lookup_cons, beq_eq_false_iff_ne.2 (Ne.symm same)]
      have head :
          Named.unbind ((other, b) :: names) name = (other, b) :: Named.unbind names name := by
        unfold Named.unbind
        exact filter_cons_of_pos (bne_iff_ne.2 same)
      rw [later] at is
      rw [head]
      exact ((ih rest is).cons _).trans (.swap ..)

end Wasmill.Named

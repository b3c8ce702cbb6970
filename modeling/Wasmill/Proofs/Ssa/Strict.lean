import Wasmill.Proofs.Ssa.Crossing
import Wasmill.Proofs.Ssa.Proper

/-! Functions whose values are defined before they are used.

A block dominates another one that no path from the entry comes to without it. A value is available
at a place behind its definition, and in all blocks that its block dominates. In a strict function
what is used is available, and then a run never reads a value that nothing was assigned to. -/
namespace Wasmill.Ssa

/-- Instructions see their operands only. -/
theorem Inst.demand_congr {f g : Function} {vals vals' : Slots} {inst : Inst}
    (same : ∀ u ∈ inst.operands, g.read vals' u = f.read vals u) :
    inst.demand g vals' = inst.demand f vals := by
  cases inst <;> simp only [Inst.operands, List.forall_mem_cons, List.not_mem_nil, false_implies,
    implies_true, and_true] at same
  case call | callImport => simp only [Inst.demand, Function.readAll_congr same]
  case callIndirect => simp only [Inst.demand, same.1, Function.readAll_congr same.2]
  all_goals simp only [Inst.demand, same]

theorem Exit.depart_congr {f g : Function} {vals vals' : Slots} {exit : Exit}
    (same : ∀ u ∈ exit.operands, g.read vals' u = f.read vals u) :
    exit.depart g vals' = exit.depart f vals := by
  cases exit with
  | jump _ | trap _ => rfl
  | branch _ _ _ | table _ _ _ => simp only [Exit.depart, same _ List.mem_cons_self]
  | ret v =>
    cases v with
    | none => rfl
    | some v => simp only [Exit.depart, same v (by simp [Exit.operands])]

theorem Exit.operands_of_bare {a b : Exit} (same : a.bare = b.bare) : a.operands = b.operands := by
  cases a <;> cases b <;> simp_all [Exit.bare, Exit.operands]

namespace Function
variable {f : Function} {off : List Nat} {a b c k x : Nat}

/-- Edges lead from the entry to the block, past the blocks in `off`. -/
inductive Reach (f : Function) (off : List Nat) : Nat → Prop
  | entry : 0 ∉ off → Reach f off 0
  | edge {r : EdgeRef} {e : Edge} : Reach f off r.block → f.edge? r = some e → e.block ∉ off →
      Reach f off e.block

section
variable (reach : f.Reach off b)
include reach

theorem Reach.not_mem : b ∉ off := by
  cases reach with
  | entry out => exact out
  | edge _ _ out => exact out

theorem Reach.mono {off' : List Nat} (sub : off' ⊆ off) : f.Reach off' b := by
  induction reach with
  | entry out => exact .entry fun mem => out (sub mem)
  | edge _ found out ih => exact .edge ih found fun mem => out (sub mem)

/-- Edges that lead to the same blocks make the same paths. -/
theorem Reach.congr {g : Function}
    (leads : ∀ r e, f.edge? r = some e → ∃ args, g.edge? r = some ⟨e.block, args⟩) :
    g.Reach off b := by
  induction reach with
  | entry out => exact .entry out
  | edge _ found out ih =>
    obtain ⟨args, found'⟩ := leads _ _ found
    exact .edge (e := ⟨_, args⟩) ih found' out

/-- A path goes past `a`, or comes to it for the first time. -/
theorem Reach.split (a : Nat) : f.Reach (a :: off) b ∨ f.Reach off a ∧
      (a = 0 ∨ ∃ r e, f.edge? r = some e ∧ e.block = a ∧ f.Reach (a :: off) r.block) := by
  induction reach with
  | entry out =>
    by_cases same : a = 0
    · exact .inr ⟨same ▸ .entry out, .inl same⟩
    · exact .inl (.entry (by simp [out, Ne.symm same]))
  | @edge r e reach found out ih =>
    rcases ih with past | through
    · by_cases same : e.block = a
      · exact .inr ⟨same ▸ .edge reach found out, .inr ⟨r, e, found, same, past⟩⟩
      · exact .inl (.edge past found (by simp [out, same]))
    · exact .inr through

end

/-- Before the instruction of index `k`, `x` is defined by what comes right before it: the
parameters of the block or the instruction there. -/
def DefinedAt (f : Function) (b : Nat) : Nat → Value → Prop
  | 0, x => x ∈ (f.block b).params
  | k + 1, x => ∃ step, (f.block b).steps[k]? = some step ∧ step.result = some x

/-- What is read at a place, there or on the way to another block. -/
inductive UsedAt (f : Function) (b k : Nat) : Value → Prop
  | step {step : Step} {u : Value} : (f.block b).steps[k]? = some step → u ∈ step.inst.operands →
      UsedAt f b k (f.resolve u)
  | exit {l : Leave} {u : Value} : (f.block b).steps[k]? = none → (f.block b).leave = some l →
      u ∈ l.exit.operands →
      UsedAt f b k (f.resolve u)
  | edge {i : Nat} {e : Edge} {u : Value} :
      (f.block b).steps[k]? = none → f.edge? ⟨b, i⟩ = some e → u ∈ e.args →
      UsedAt f b k (f.resolve u)

/-- The definition of `x` comes before the place on every path. -/
def Available (f : Function) (b k : Nat) (x : Value) : Prop :=
  ∃ a j, f.DefinedAt a j x ∧ (a = b ∧ j ≤ k ∨ a ≠ b ∧ ¬ f.Reach [a] b)

structure Strict (f : Function) : Prop where
  own : ∀ b k x, f.DefinedAt b k x → f.sameAs x = none
  once : ∀ a j b k x, f.DefinedAt a j x → f.DefinedAt b k x → a = b ∧ j = k
  uses : ∀ b k x, f.Reach [] b → f.UsedAt b k x → f.Available b k x

theorem Available.step (available : f.Available b (k + 1) x) :
    f.Available b k x ∨ f.DefinedAt b (k + 1) x := by
  obtain ⟨a, j, defined, ⟨rfl, le⟩ | above⟩ := available
  · rcases Nat.lt_or_eq_of_le le with lt | rfl
    · exact .inl ⟨a, j, defined, .inl ⟨rfl, Nat.le_of_lt_succ lt⟩⟩
    · exact .inr defined
  · exact .inl ⟨a, j, defined, .inr above⟩

theorem Available.cross {i : Nat} {e : Edge} (available : f.Available e.block 0 x)
    (edge : f.edge? ⟨b, i⟩ = some e)
    (done : (f.block b).steps[k]? = none) : f.Available b k x ∨ f.DefinedAt e.block 0 x := by
  obtain ⟨a, j, defined, ⟨rfl, le⟩ | ⟨other, above⟩⟩ := available
  · exact .inr (Nat.le_zero.1 le ▸ defined)
  · refine .inl ⟨a, j, defined, ?_⟩
    by_cases same : a = b
    · subst same
      refine .inl ⟨rfl, ?_⟩
      cases j with
      | zero => exact Nat.zero_le k
      | succ j =>
        obtain ⟨step, there, -⟩ := defined
        have inside := (Array.getElem?_eq_some_iff.1 there).1
        have outside := Array.getElem?_eq_none_iff.1 done
        omega
    · exact .inr ⟨same, fun reach => above (.edge reach edge (by simpa using Ne.symm other))⟩

/-- Where a run stands, every available value was assigned. -/
structure Filled (f : Function) (s : State) : Prop where
  reached : f.Reach [] s.block
  filled : ∀ x, f.Available s.block s.index x → ∃ y, s.vals x = some y

section
variable {s : State} (strict : f.Strict) (filled : f.Filled s)
include strict filled

theorem Filled.read {u : Value} (used : f.UsedAt s.block s.index (f.resolve u)) :
    ∃ y, f.read s.vals u = some y :=
  filled.filled _ (strict.uses _ _ _ filled.reached used)

theorem Filled.after {step : Step} (there : (f.block s.block).steps[s.index]? = some step)
    (y : Slot) :
    f.Filled (f.after s step y) := by
  refine ⟨filled.reached, fun x available => ?_⟩
  have kept : (∃ z, s.vals x = some z) → ∃ z, (f.after s step y).vals x = some z :=
    fun ⟨z, is⟩ => by
    unfold Function.after
    cases step.result with
    | none => exact ⟨z, is⟩
    | some r =>
      by_cases same : x = f.resolve r
      · exact ⟨y, by simp [assign, same]⟩
      · exact ⟨z, by simp [assign, same, is]⟩
  rcases available.step with before | ⟨step', there', result⟩
  · exact kept (filled.filled x before)
  · cases there.symm.trans there'
    have own :=
      strict.own _ _ x (show f.DefinedAt s.block (s.index + 1) x from ⟨step, there, result⟩)
    exact ⟨y, by simp [Function.after, result, assign, resolve_of_none own]⟩

/-- An edge that passes as many values as its target takes can be taken. -/
theorem Filled.cross (regular : f.Regular) {i : Nat} {e : Edge}
    (edge : f.edge? ⟨s.block, i⟩ = some e)
    (done : (f.block s.block).steps[s.index]? = none)
    (size : e.args.size = (f.block e.block).params.size) :
    ∃ xs s', f.readAll s.vals e.args.toList = some xs ∧ f.take s.vals e = some s' ∧
      s'.block = e.block ∧ s'.index = 0 ∧
      f.readAll s'.vals (f.block e.block).params.toList = some xs ∧
      (∀ x : Nat, x ∉ (f.block e.block).params → s'.vals x = s.vals x) ∧ f.Filled s' := by
  have each (u : Nat) (mem : u ∈ e.args.toList) :=
    filled.read strict (.edge done edge (Array.mem_def.2 mem))
  obtain ⟨xs, reads⟩ := readAll_isSome each
  obtain ⟨s', taken, block, index, params, others⟩ :=
    take_carries regular (.refl f e.block e.args) size reads
  have param : ∀ x : Nat, x ∈ (f.block e.block).params → ∃ y, s'.vals x = some y := fun x mem => by
    obtain ⟨j, at'⟩ := Array.mem_iff_getElem?.1 mem
    have inside : j < xs.length := by
      rw [readAll_length params]
      simpa using (Array.getElem?_eq_some_iff.1 at').1
    have read := readAll_getElem? params (i := j) (v := x) (by simpa using at')
    rw [Function.read, resolve_of_none (regular.param_own _ x mem),
      List.getElem?_eq_getElem inside] at read
    exact ⟨_, read⟩
  refine ⟨xs, s', reads, taken, block, index, params, others,
    block ▸ .edge filled.reached edge (by simp), fun x available => ?_⟩
  rw [block, index] at available
  by_cases mem : x ∈ (f.block e.block).params
  · exact param x mem
  · rw [others x mem]
    exact filled.filled x ((available.cross edge done).resolve_right mem)

end

end Function
end Wasmill.Ssa

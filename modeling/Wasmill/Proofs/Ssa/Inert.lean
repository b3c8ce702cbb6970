import Wasmill.Proofs.Ssa.Compiled

/-! Dead code leaves no trace.

What is compiled depends on the operators, not on their places, and operators in dead code that are
nested as blocks are change nothing. So they can be put anywhere that control does not come to. -/
namespace Wasmill.Ssa
open Wasm List Build

/-- Operators are compiled to the same wherever they stand. -/
theorem Build.each_likewise {env : Env} {ops ops' : List Placed} {s t s' : Builder}
    (lanes : ∀ p ∈ ops, p.1.Lanes)
    (run : each env ops s = .ok ((), t)) (same : ops'.map Prod.fst = ops.map Prod.fst)
    (alike : s'.bare = s.bare) : ∃ t', each env ops' s' = .ok ((), t') ∧ t'.bare = t.bare := by
  induction ops generalizing s s' ops' with
  | nil =>
    cases run
    cases map_eq_nil_iff.1 same
    exact ⟨s', rfl, alike⟩
  | cons p ops ih =>
    obtain ⟨q, ops', rfl, one, more⟩ := map_eq_cons_iff.1 same
    obtain ⟨u, first, rest⟩ := each_cons_ok run
    obtain ⟨-, like, -⟩ := shifts_operator (lanes p mem_cons_self) () u first
    obtain ⟨u', first', alike'⟩ := like (placed s' q.2) alike
    obtain ⟨t', rest', last⟩ := ih (fun r mem => lanes r (mem_cons_of_mem p mem)) rest more alike'
    exact ⟨t', (each_cons (one ▸ first')).trans rest', last⟩

/-- A body has one list of operators. -/
theorem Listed.unique {c : Cursor} {ops ops' : List Placed} (listed : Listed c ops)
    (listed' : Listed c ops') : ops = ops' := by
  induction ops generalizing c ops' with
  | nil =>
    rcases ops' with _ | ⟨⟨o, _⟩, ops'⟩
    · rfl
    · obtain ⟨-, next, read, -⟩ := listed'
      cases (Operator.more_of_read read).symm.trans listed
  | cons p ops ih =>
    obtain ⟨o, _⟩ := p
    obtain ⟨rfl, next, read, listed⟩ := listed
    rcases ops' with _ | ⟨⟨o', _⟩, ops'⟩
    · cases (Operator.more_of_read read).symm.trans listed'
    · obtain ⟨rfl, next', read', listed'⟩ := listed'
      cases read.symm.trans read'
      rw [ih listed listed']

/-- The code of a tree closes what it opens. -/
theorem closing_tree {t : Tree} (plain : t.Plain) {n : Nat} (some' : 0 < n) {rest : List Operator}
    (closing : Closing n rest) :
    Closing n (t.ops.map Prod.fst ++ rest) := by
  induction t generalizing n rest with
  | done => exact closing
  | op o place more ih =>
    refine ⟨some', ?_⟩
    have same : n + o.rises - o.falls = n := by
      have flat := plain.1
      cases o <;> first | rfl | cases flat
    rw [same]
    exact ih plain.2 some' closing
  | block ty place body close more inside after
  | loop ty place body close more inside after
  | ifThen ty place body close more inside after =>
    simp only [Tree.ops, map_cons, map_append, cons_append, append_assoc]
    exact ⟨some', inside plain.1 (Nat.succ_pos n) ⟨Nat.succ_pos n, after plain.2 some' closing⟩⟩
  | ifElse ty place arm middle other close more inside inside' after =>
    simp only [Tree.ops, map_cons, map_append, cons_append, append_assoc]
    exact ⟨some', inside plain.1 (Nat.succ_pos n) ⟨Nat.succ_pos n,
      inside' plain.2.1 (Nat.succ_pos n)
      ⟨Nat.succ_pos n, after plain.2.2 some' closing⟩⟩⟩

theorem Closing.insert {t : Tree} (plain : t.Plain) {n : Nat} {before after : List Operator}
    (closing : Closing n (before ++ after))
    (some' : after ≠ []) : Closing n (before ++ (t.ops.map Prod.fst ++ after)) := by
  induction before generalizing n with
  | nil =>
    cases after with
    | nil => exact absurd rfl some'
    | cons o after => exact closing_tree plain closing.1 closing
  | cons o before ih => exact ⟨closing.1, ih closing.2⟩

/-- One body is another with the code of a tree in it, before an operator that control does not come
to. -/
def Inserts (env : Env) (sig : Sig) (body : Body) (t : Tree) (body' : Body) : Prop :=
  ∃ runs c c' before before' after after' s₀ s, Body.localRuns body.start = (.ok runs, c) ∧
    Body.localRuns body'.start = (.ok runs, c') ∧ Listed c (before ++ after) ∧
      Listed c' (before' ++ (t.ops ++ after')) ∧
    before'.map Prod.fst = before.map Prod.fst ∧ after'.map Prod.fst = after.map Prod.fst ∧
      after ≠ [] ∧
    entry env sig (body.offset % UInt32.size) runs.toList = .ok ((), s₀) ∧
      Build.each env before s₀ = .ok ((), s) ∧
    s.current = none

/-- Dead code is compiled to nothing: where control does not come to, operators in which blocks are
nested are passed over and leave all but the place as it was, whatever they are. So a body that
compiles does so with such operators in it, and gives the same function up to the places of its
instructions. -/
theorem dead_code_inert (env : Env) {t : Tree} (plain : t.Plain) :
    (∀ s : Builder, s.current = none → ∃ loc,
      Build.each env t.ops s = .ok ((), { s with srcloc := loc })) ∧
      ∀ sig body body' f, Inserts env sig body t body' → Function.ofBody env sig body = .ok f →
        ∃ f', Function.ofBody env sig body' = .ok f' ∧ f'.bare = f.bare := by
  refine ⟨fun s dead => dead_run plain env dead, ?_⟩
  rintro sig body body' f ⟨runs, c, c', before, before', after, after', s₀, s, read, read', listed,
    listed', same, same', some',
    entered, first, dead⟩ compiled
  obtain ⟨_, _, _, ops, u, is, entered', listed₁, closing, run, rfl⟩ :=
    Function.ofBody_iff.1 compiled
  cases read.symm.trans is
  cases entered.symm.trans entered'
  cases listed.unique listed₁
  obtain ⟨_, first', rest⟩ := each_append_ok run
  cases first.symm.trans first'
  obtain ⟨-, -, -, elsewhere⟩ := entry_underway (Nat.mod_lt _ (by decide)) entered
  have lanes := listed.lanes
  rw [forall_mem_append] at lanes
  obtain ⟨s₀', entered', alike⟩ := elsewhere (body'.offset % UInt32.size)
  obtain ⟨s', first', alike⟩ := each_likewise lanes.1 first same alike
  have dead' : s'.current = none := (congrArg Builder.current alike).trans dead
  obtain ⟨loc, passed⟩ := dead_run plain env dead'
  obtain ⟨u', rest', alike⟩ := each_likewise lanes.2 rest same'
    (show ({ s' with srcloc := loc } : Builder).bare = _ from alike)
  refine ⟨u'.func, Function.ofBody_iff.2 ⟨runs, c', s₀', _, u', read', entered', listed', ?_, ?_,
    rfl⟩, congrArg Builder.func alike⟩
  · rw [map_append] at closing
    simpa only [map_append, same, same'] using closing.insert plain (by simpa using some')
  · rw [each_append first', each_append passed, rest']

/-- A function that traps. -/
def trapping : Body := .ofBytes ⟨#[0, 0x00, 0x0b]⟩ 40

/-- The same with an `if` behind the trap, and in it an operator that is not compiled and a branch
to nowhere. -/
def outrunning : Body := .ofBytes ⟨#[0, 0x00, 0x04, 0x40, 0x25, 0, 0x05, 0x0c, 9, 0x0b, 0x0b]⟩ 40

def outrun : Tree :=
  .ifElse .empty 42 (.op (.extra "TableGet" (.tableGet 0)) 44 .done) 46 (.op (.br 9) 47 .done) 49 .done

theorem dead_code_inert_trapping : outrun.Plain ∧ Inserts {} ⟨[], none⟩ trapping outrun outrunning ∧
    ∃ f f', Function.ofBody {} ⟨[], none⟩ trapping = .ok f ∧
      Function.ofBody {} ⟨[], none⟩ outrunning = .ok f' ∧
      f'.bare = f.bare := by
  have plain : outrun.Plain := ⟨⟨rfl, trivial⟩, ⟨rfl, trivial⟩, trivial⟩
  let short (pos : Nat) : Cursor := { trapping.start with pos }
  let long (pos : Nat) : Cursor := { outrunning.start with pos }
  have listed : Listed (short 1) [(.unreachable, 41), (.close, 42)] :=
    ⟨rfl, short 2, rfl, rfl, short 3, rfl, rfl⟩
  have listed' : Listed (long 1) ((.unreachable, 41) :: (outrun.ops ++ [(.close, 50)])) :=
    ⟨rfl, long 2, rfl, rfl, long 4, rfl, rfl, long 6, rfl, rfl, long 7, rfl, rfl, long 9, rfl, rfl,
      long 10, rfl, rfl, long 11,
      rfl, rfl⟩
  have inserts : Inserts {} ⟨[], none⟩ trapping outrun outrunning :=
    ⟨#[], _, _, [(.unreachable, 41)], [(.unreachable, 41)], [(.close, 42)], [(.close, 50)], _, _,
      rfl, rfl, listed, listed', rfl,
      rfl, by simp, rfl, rfl, rfl⟩
  obtain ⟨f, compiled⟩ : ∃ f, Function.ofBody {} ⟨[], none⟩ trapping = .ok f := ⟨_, rfl⟩
  obtain ⟨f', compiled', same⟩ := (dead_code_inert {} plain).2 _ _ _ f inserts compiled
  exact ⟨plain, inserts, f, f', compiled, compiled', same⟩

end Wasmill.Ssa

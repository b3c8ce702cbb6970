import Wasmill.Proofs.Ssa.Compiled
import Wasmill.Proofs.Ssa.Entry
import Wasmill.Proofs.Ssa.Translation

/-! One body, read twice.

The checker reads a body to its end, the compiler up to the end of the function. Where both succeed
they have read the same locals and the same operators: those of the tree that the body stands for.
-/
namespace Wasmill.Ssa
open Wasm Steps Check
variable {ctx : Context} {ty : FuncType} {n : Nat}

/-! ### Operators -/

theorem Check.each_cons {o : Operator} {place : Nat} {rest : List Placed} {k k₁ : Checker}
    {sc : Scope}
    {outer : List Scope} (scopes : k.scopes = sc :: outer)
    (h : Check.operator o { k with offset := place } = .ok ((), k₁)) :
    Check.each ((o, place) :: rest) k = Check.each rest k₁ := by
  refine bind_apply (a := ⟨⟩) (fun _ => Check.each rest) ?_
  refine (bind_apply _ (scope_apply scopes)).trans ?_
  rw [bind_apply _ (modify_apply _)]
  exact h

/-- Where the checker comes to the end of the function with the last of the operators that the
compiler goes through, it has gone through the same. The compiler opens no frame for a block with
handlers, so there is none. -/
theorem Check.operators_each {ops : List Placed} {depth : Nat} {c c' : Cursor} {k k' : Checker}
    (listed : Listed c ops)
    (closing : Closing depth (ops.map Prod.fst)) (layered : k.Layered)
    (le : depth ≤ k.scopes.length) (enough : c.left < n)
    (checked : Check.operators n c k = .ok (c', k')) (ended : k'.scopes = []) :
    k.scopes.length ≤ depth ∧ listing n c = some ops ∧ Flat ops ∧
      Check.each ops k = .ok ((), k') := by
  obtain ⟨n, rfl⟩ : ∃ m, n = m + 1 := ⟨n - 1, by omega⟩
  induction ops generalizing k c depth n with
  | nil =>
    have listed : c.atEnd := listed
    rw [Check.operators, if_pos listed] at checked
    cases checked
    exact ⟨by rw [ended]; exact Nat.zero_le _, by rw [listing, if_pos listed],
      fun _ mem => absurd mem List.not_mem_nil, rfl⟩
  | cons p ops ih =>
    obtain ⟨o, place⟩ := p
    obtain ⟨rfl, next, read, listed⟩ := listed
    have less := ((Operator.read_good c).ok read).2
    have left := Operator.more_of_read read
    rw [Check.operators] at checked
    simp only [left, Bool.false_eq_true, if_false, read] at checked
    rw [bind_apply _ (modify_apply _)] at checked
    obtain ⟨_, k₁, one, checked⟩ :=
      bind_ok (x := Check.operator o) (f := fun _ => Check.operators n next) checked
    obtain ⟨sc, rest, scopes⟩ := List.exists_cons_of_length_pos (Nat.lt_of_lt_of_le closing.1 le)
    obtain ⟨layered₁, depth'⟩ :=
      operator_depth (k := { k with offset := c.offset }) layered scopes one
    simp only [List.map_cons, Closing] at depth' closing
    have falls : o.falls ≤ depth :=
      Nat.le_trans (by unfold Operator.falls; split <;> simp) closing.1
    obtain ⟨n, rfl⟩ : ∃ m, n = m + 1 := ⟨n - 1, by omega⟩
    obtain ⟨le₁, lists, flat, each⟩ := ih listed closing.2 layered₁ (by omega) n (by omega) checked
    refine ⟨by omega, ?_, ?_, (each_cons scopes one).trans each⟩
    · rw [listing, if_neg (by simp [left]), read]
      simp only [lists, Option.map_some]
    · refine List.forall_mem_cons.2 ⟨?_, flat⟩
      simpa [Operator.handlers] using show o.handlers = 0 by omega

/-! ### Locals -/

theorem read_bind_ok {α β : Type} {x : Read α} {g : α → Read β} {b : β} {c c' : Cursor}
    (h : (x >>= g) c = (.ok b, c')) : ∃ a c₁, x c = (.ok a, c₁) ∧ g a c₁ = (.ok b, c') := by
  simp only [bind, ExceptT.bind, ExceptT.mk, StateT.bind] at h
  rcases first : x c with ⟨e | a, c₁⟩
  · rw [first] at h
    cases h
  · rw [first] at h
    exact ⟨a, c₁, rfl, h⟩

theorem compiledRun_ok {run : Nat × ValType} {c c' : Cursor}
    (h : Body.compiledRun c = (.ok run, c')) :
    Body.localRun c = (.ok (run.1, .num run.2), c') := by
  obtain ⟨⟨count, ty⟩, c₁, read, more⟩ := read_bind_ok h
  cases ty with
  | num ty => cases more; exact read
  | ref ty => cases more

/-- The checker reads the runs of locals that the compiler reads. -/
theorem runs_ok {types types' : Array Ty} {c c₁ c₂ : Cursor} {read runs : Array (Nat × ValType)}
    (checked : Check.localRuns n types c ctx = .ok (types', c₁))
    (reads : Read.many Body.compiledRun n read c = (.ok runs, c₂)) :
    c₂ = c₁ ∧ ∃ more, runs.toList = read.toList ++ more ∧
      types'.toList = types.toList ++ (declared more).map Ty.num := by
  induction n generalizing types c read with
  | zero =>
    cases checked
    cases reads
    exact ⟨rfl, [], by simp, by simp [declared]⟩
  | succ n ih =>
    obtain ⟨run, next, one, rest⟩ := read_bind_ok reads
    simp only [Check.localRuns, compiledRun_ok one] at checked
    split at checked
    · cases checked
    split at checked
    · cases checked
    obtain ⟨same, more, all, all'⟩ := ih checked rest
    exact ⟨same, run :: more, by simp [all], by simp [all', declared]⟩

/-! ### The code of a body -/

/-- Where the checker starts in the code of a function. -/
def start (ctx : Context) (ty : FuncType) (locals : Array Ty) : Checker :=
  let params := List.range ty.params.length
  { ctx, locals, scopes := [⟨.block, ⟨[], ty.results⟩, 0, false, params⟩], assigned := params }

/-- A body is checked to its end, which is that of the function. -/
theorem checkBody_ok {first : Cursor} (h : ctx.checkBody ty first = .ok ()) :
    ∃ n c₀ types c c' k', Read.u32 first = (.ok n, c₀) ∧
      Check.localRuns n ty.params.toArray c₀ ctx = .ok (types, c) ∧
      Check.operators (c.left + 1) c (start ctx ty types) = .ok (c', k') ∧ k'.scopes = [] := by
  rw [Context.checkBody] at h
  rcases read : Read.u32 first with ⟨e | n, c₀⟩
  · rw [read] at h
    cases h
  · rw [read] at h
    simp only at h
    obtain ⟨⟨types, c⟩, runs, code⟩ := except_ok h
    obtain ⟨⟨_, k₁⟩, code, -⟩ := except_ok code
    obtain ⟨c', k', all, ends⟩ := bind_ok code
    have closed := after_get ends
    refine ⟨n, c₀, types, c, c', k', rfl, runs, all, ?_⟩
    split at closed
    · cases closed
    · next empty => simpa using empty

theorem start_layered (ctx : Context) (ty : FuncType) (types : Array Ty) :
    (start ctx ty types).Layered := by
  simp [Checker.Layered, start]

theorem start_rooted (ctx : Context) (ty : FuncType) (types : Array Ty) :
    (start ctx ty types).Rooted :=
  ⟨_, [], rfl, Nat.zero_le _⟩

/-- A body that is checked and compiled has a tree of code between its locals and its last `end`. -/
structure Parts (env : Env) (ctx : Context) (ty : FuncType) (body : Body) (s₀ : Builder)
    (f : Function)
    (runs : List (Nat × ValType)) (t : Tree) : Prop where
  parts : body.parts = some ((runs.map (·.1)).sum, t)
  plain : t.Plain
  flat : Flat t.ops
  ends : ∃ types close k k' s s', types.toList = ty.params ++ (declared runs).map Ty.num ∧
    Check.each t.ops (start ctx ty types) = .ok ((), k) ∧
    Check.operator .close { k with offset := close } = .ok ((), k') ∧
    Build.each env t.ops s₀ = .ok ((), s) ∧
    Build.operator env .close (Build.placed s close) = .ok ((), s') ∧ f = s'.func

theorem exists_parts {σ ε : Type} {O : Outside σ ε} {env : Env} {sig : Sig} {body : Body}
    {f : Function} (quiet : O.Undisturbed)
    (checked : ctx.checkBody ty body.start = .ok ())
    (compiled : Function.ofBody env sig body = .ok f) :
    ∃ runs s fillers t, Entering O sig s (runs.map (·.1)).sum fillers ∧
      s.localTypes.toList = sig.params ++ declared runs ∧
      Parts env ctx ty body { s with control := [⟨.function, sig.result, 0, #[]⟩] } f runs t := by
  obtain ⟨n, c₀, types, c, c', k', count, types', operators, ended⟩ := checkBody_ok checked
  obtain ⟨runs, c₁, s₀, ops, s', locals, entered, listed, closing, each', rfl⟩ :=
    Function.ofBody_iff.1 compiled
  obtain ⟨n', c₀', count', reads⟩ := read_bind_ok locals
  cases count.symm.trans count'
  obtain ⟨rfl, more, same, declares⟩ := runs_ok types' reads
  obtain rfl : runs.toList = more := same
  obtain ⟨s, fillers, entering, localTypes, rfl⟩ := entry_ok quiet entered
  obtain ⟨-, lists, flat, each⟩ :=
    Check.operators_each listed closing (start_layered ctx ty types) (Nat.le_refl 1)
    (Nat.lt_succ_self _) operators ended
  have left : Unfinished (start ctx ty types) k' ops .block 0 :=
    ⟨start_rooted ctx ty types, each, ⟨_, [], rfl, rfl, rfl⟩, by rw [ended]; exact Nat.le_refl 0⟩
  obtain ⟨t, stop, close, rest, plain, rfl, rfl | ⟨-, no⟩⟩ := left.starts flat
  · obtain ⟨k₁, inside, behind⟩ := each_append_ok each
    obtain ⟨k₂, last, behind⟩ := each_cons_ok behind
    obtain ⟨s₁, inside', behind'⟩ := Build.each_append_ok each'
    obtain ⟨s₂, last', behind'⟩ := Build.each_cons_ok behind'
    have stays := (t.stays plain flat.left (start_rooted ctx ty types) inside).placed close
    obtain ⟨frame, outer, _, scopes, -, -, closes, -⟩ := close_ok stays.rooted last
    obtain ⟨sc, outer', u, first, there, -, -⟩ := stays.frame
    obtain rfl : rest = [] := each_ended (by
      rw [closes.scopes]
      cases first
      rw [there] at scopes
      cases scopes
      rfl) behind
    cases behind'
    refine ⟨runs.toList, s, fillers, t, entering, localTypes, ?_, plain, flat.left, types, close,
      k₁, k₂, s₁, _,
      by simpa using declares, inside, last, inside', last', rfl⟩
    simp [Body.parts, locals, lists, Tree.ofOps_ops plain]
  · cases no

end Wasmill.Ssa

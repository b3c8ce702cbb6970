import Mathlib.Logic.Function.Iterate
import Mathlib.Logic.Relation
import Wasmill.Instantiate
import Wasmill.Proofs.Machine.Deeds
import Wasmill.Proofs.Steps

/-! What can happen to the world.

Whatever is asked of it, the world changes by moves of a few kinds. Code, host functions and
instantiation make no others, so what holds of the world at all times is proved move by move. -/
namespace Wasmill
open Code Steps List

theorem Instance.deoptimize_same (i : Instance) (index : Nat) :
    i.SameParts (i.deoptimize index) := by
  unfold Instance.deoptimize
  split
  · rfl
  · split
    · split <;> rfl
    · rfl

namespace World

/-- One thing changes. -/
inductive Move (w : World) : World → Prop
  /-- Engines and instances stay as they are. -/
  | aside {w' : World} (engines : w'.engines = w.engines)
  (instances : w'.instances = w.instances) : Move w w'
  | engine (config : Config) : Move w (w.addEngine config).1
  | register (engine : Nat) (sig : Sig) : Move w (w.register engine sig).1
  | release (engine token : Nat) : Move w (w.release engine token)
  | inst (made : Instance) : Move w { w with instances := w.instances.push made }
  | onInstance {id : Nat} {f : Instance → Instance}
      (same : ∀ i, w.instances[id]? = some i → i.SameParts (f i)) : Move w (w.onInstance id f)

/-- Some moves, one after another. -/
abbrev Moves : World → World → Prop := Relation.ReflTransGen Move

variable {w w' w'' : World}

theorem Move.one (move : w.Move w') : w.Moves w' := .single move

namespace Moves

theorem aside (engines : w'.engines = w.engines) (instances : w'.instances = w.instances) :
    w.Moves w' :=
  (Move.aside engines instances).one

theorem past (rest : w'.Moves w'') (engines : w'.engines = w.engines)
    (instances : w'.instances = w.instances) : w.Moves w'' :=
  (aside engines instances).trans rest

theorem onInstance {id : Nat} {f : Instance → Instance}
    (same : ∀ i, w.instances[id]? = some i → i.SameParts (f i)) :
    w.Moves (w.onInstance id f) := (Move.onInstance same).one

theorem foldl {α : Type} {f : World → α → World} (step : ∀ (w : World) x, w.Moves (f w x))
    (xs : List α) : w.Moves (xs.foldl f w) := by
  induction xs generalizing w with
  | nil => exact .refl
  | cons x xs ih => exact (step w x).trans ih

theorem releaseAll (engine : Nat) (tokens : List Nat) : w.Moves (w.releaseAll engine tokens) :=
  foldl (fun _ token => (Move.release engine token).one) tokens

theorem holdInstance (id : Nat) : w.Moves (w.holdInstance id) := onInstance fun _ _ => rfl

theorem dropTable (id : Nat) : w.Moves (w.dropTable id) := by
  unfold World.dropTable
  split
  · exact .refl
  · have less : w.Moves (w.onTable id fun t => { t with handles := t.handles - 1 }) := aside rfl rfl
    dsimp only
    split
    · exact less.trans (releaseAll _ _)
    · exact less

theorem removeDependent (host gone : Nat) : w.Moves (w.removeDependent host gone) := by
  unfold World.removeDependent
  split
  · exact .refl
  · exact aside rfl rfl

theorem dropInstance (id : Nat) : w.Moves (w.dropInstance id) := by
  unfold World.dropInstance
  split
  · exact .refl
  · rename_i i _
    have less : w.Moves (w.onInstance id fun i => { i with handles := i.handles - 1 }) :=
      onInstance fun _ _ => rfl
    dsimp only
    split
    · rw [← Array.foldl_toList, ← Array.foldl_toList]
      have hosts := less.trans (foldl (fun w host => removeDependent host id) i.hosts.toList)
      exact (hosts.trans (foldl (fun _ _ => dropTable _) i.tables.toList)).trans (releaseAll _ _)
    · exact less

theorem unnameInstance (name : String) : w.Moves (w.unnameInstance name) := by
  unfold World.unnameInstance
  split
  · exact past (dropInstance _) rfl rfl
  · exact .refl

theorem nameInstance (name : String) (id : Nat) : w.Moves (w.nameInstance name id) :=
  (unnameInstance name).trans (aside rfl rfl)

theorem unnameTable (name : String) : w.Moves (w.unnameTable name) := by
  unfold World.unnameTable
  split
  · exact past (dropTable _) rfl rfl
  · exact .refl

theorem nameTable (name : String) (id : Nat) : w.Moves (w.nameTable name id) :=
  (unnameTable name).trans (aside rfl rfl)

theorem invalidate (host : Nat) : w.Moves (w.invalidate host) := by
  unfold World.invalidate
  split
  · exact .refl
  · rename_i h _
    refine past (foldl ?_ h.dependents) rfl rfl
    rintro w ⟨id, index⟩
    dsimp only
    split
    · exact onInstance fun i _ => i.deoptimize_same index
    · exact .refl

theorem setOptimized (host : Nat) (code : OptimizedCode Effect) :
    w.Moves (w.setOptimized host code) :=
  (invalidate host).trans (aside rfl rfl)

theorem optimizeImport {id index host : Nat} {sig : Sig}
    (is : w.optimizeImport id index host sig = .ok w') : w.Moves w' := by
  unfold World.optimizeImport at is
  split at is
  · dsimp only at is
    split at is
    · cases is
      exact .refl
    · split at is
      · cases is
        exact .refl
      · obtain ⟨state, _, is⟩ := except_ok is
        split at is
        · cases is
          exact .refl
        · obtain ⟨data, _, is⟩ := except_ok is
          cases is
          have written : w.Moves (w.onInstance id fun i => { i with data }) :=
            onInstance fun _ _ => rfl
          exact written.trans (aside rfl rfl)
  · cases is
    exact .refl

theorem setProfiling (id : Nat) (on : Bool) : w.Moves (w.setProfiling id on) := by
  unfold World.setProfiling
  split
  · exact .refl
  · split
    · exact .refl
    · rw [← Array.foldl_toList]
      refine Relation.ReflTransGen.trans ?_ (foldl (fun _ _ => ?_) _)
      · exact onInstance fun _ _ => rfl
      · exact aside rfl rfl

theorem effect (e : Effect) : w.Moves (Machine.effect w e) := by
  have elim : ∀ (x : Option Nat) (f : Nat → World), (∀ id, w.Moves (f id)) →
      w.Moves (x.elim w f) := by
    intro x f each
    cases x with
    | none => exact .refl
    | some id => exact each id
  cases e with
  | interrupt target => exact elim _ _ fun id => onInstance fun _ _ => rfl
  | invalidate host => exact elim _ _ fun id => invalidate id
  | setOptimized host code => exact elim _ _ fun id => setOptimized id code
  | call target name args => exact .refl
  | write _ _ _ | grow _ _ =>
    refine elim _ _ fun id => ?_
    split
    · exact aside rfl rfl
    · exact aside rfl rfl
  | profiling target on => exact elim _ _ fun id => setProfiling id on
  | drop target => exact unnameInstance target

theorem dropActivation (a : Activation) : w.Moves (w.dropActivation a) := by
  unfold World.dropActivation
  rw [← Array.foldl_toList]
  refine (dropInstance _).trans (foldl (fun w frame => ?_) _)
  cases frame.caller with
  | none => exact .refl
  | some caller => exact dropInstance caller

theorem enterIndex {id index : Nat} {args : List Val} {task : Task}
    (is : w.enterIndex id index args = .ok (w', task)) : w.Moves w' := by
  unfold World.enterIndex at is
  dsimp only at is
  split at is
  · cases is
  · split at is
    · cases is
    · obtain ⟨slots, _, is⟩ := except_ok is
      cases is
      exact holdInstance id

theorem enter {id : Nat} {name : String} {args : List Val} {task : Task}
    (is : w.enter id name args = .ok (w', task)) : w.Moves w' := by
  unfold World.enter at is
  split at is
  · exact enterIndex is
  · cases is

end Moves
end World

/-! ### Steps -/

/-- The instruction that the machine executes next. -/
def Machine.Executes (w : World) (a : Activation) (i : Instr) (next : Nat) : Prop :=
  Fetch.instrAt (w.instances.getD a.inst default).code a.pc = .ok (.instr i, next)

namespace Exec

theorem Act.moves {i : Instr} {r t : Running} (h : Act i r t) : r.world.Moves t.world := by
  cases h with
  | aside engines instances => exact .aside engines instances
  | self same => exact .onInstance fun i _ => same i
  | call => exact .refl
  | away => exact .holdInstance _
  | @back _ frame below is under =>
    unfold closed
    cases frame.caller with
    | none => exact .refl
    | some caller => exact .dropInstance _

theorem Deed.moves {i : Instr} {r t : Running} (h : Deed i r t) : r.world.Moves t.world := by
  obtain ⟨s, u, first, act, last⟩ := h
  have moves := act.moves
  rwa [first.world, ← last.world] at moves

/-- One step does what some instruction does, that which is executed if one is. -/
theorem behaves_step (r : Running) : Leads step r
    (fun next t => ∃ i, (i = .unwind ∨ ∃ n, Machine.Executes r.world r.act i n) ∧
      Succeeds i r.act.pc r next t) (fun _ t => ∃ i, Deed i r t) := by
  unfold step
  rw [leads_bind, leads_ask, leads_bind, leads_self, leads_bind, leads_lift]
  split
  · rename_i fetched met
    obtain ⟨fetched, next⟩ := fetched
    cases fetched with
    | instr i =>
      exact (behaves_instr _ _ i r).imp (fun _ _ goes => ⟨i, .inr ⟨next, met⟩, goes⟩)
        fun _ _ fails => ⟨i, fails.deed⟩
    | table index =>
      exact ((behaves_bind fun k => behaves_bind fun d =>
        behaves_branch d : Behaves .unwind r.act.pc _) r).imp
        (fun _ _ goes => ⟨.unwind, .inl rfl, goes⟩) fun _ _ fails => ⟨.unwind, fails.deed⟩
  · exact ⟨.unwind, (Quiet.refl r).deed⟩

theorem step_moves (r : Running) : r.world.Moves (step r).2.world :=
  ((behaves_step r).imp (fun _ _ ⟨_, _, goes⟩ => goes.deed.elim Deed.moves fun ends =>
    ends.1 ▸ .refl)
    fun _ _ ⟨_, deed⟩ => deed.moves).state (P := fun t => r.world.Moves t.world)

end Exec

/-- The world that a step leads to. -/
def Progress.world : Progress → World
  | .running w _ _ => w
  | .finished w _ => w

namespace Machine
variable {w : World} {below : List Task}

theorem failHost_world (h : HostTask) (e : Error) : (failHost w h e below).world = w := by
  unfold failHost
  split <;> rfl

theorem deliver_world (result : Except Error (Option Val)) :
    (deliver w result below).world = w := by
  unfold deliver
  split
  · split
    · rfl
    · exact failHost_world _ _
  · rfl

theorem leave_moves (a : Activation) (result : Except Error (Option Val)) :
    w.Moves (leave w a result below).world := by
  unfold leave
  rw [deliver_world]
  exact .dropActivation a

theorem resume_moves (a : Activation) (back : Return) (answer : Except Error Slot) :
    w.Moves (resume w a back answer below).world := by
  unfold resume
  split
  · exact .refl
  · split
    · exact .refl
    · exact leave_moves a _

theorem startGeneric_moves (a : Activation) (host index : Nat) (args : List Slot) (back : Return) :
    w.Moves (startGeneric w a host index args back below).world := by
  unfold startGeneric
  split
  · exact .refl
  · exact .aside rfl rfl

theorem startHost_moves (a : Activation) (optimized : Bool) (index : Nat) (args : List Slot)
    (back : Return) :
    w.Moves (startHost w a optimized index args back below).world := by
  unfold startHost
  dsimp only
  split
  · exact .refl
  · split
    · exact startGeneric_moves _ _ _ _ _
    · exact (World.Moves.onInstance fun i _ => i.deoptimize_same _).trans
        (startGeneric_moves _ _ _ _ _)
    · split
      · exact .refl
      · exact .aside rfl rfl

theorem hostAnswer_moves (h : HostTask) : w.Moves (hostAnswer w h).1 := by
  unfold hostAnswer
  split
  · split <;> exact .refl
  · split
    · exact .refl
    · split
      · exact .refl
      · split
        · rename_i is
          exact .optimizeImport is
        · exact .refl

theorem hostStep_moves (h : HostTask) : w.Moves (hostStep w h below).world := by
  unfold hostStep
  split
  · dsimp only
    split
    · exact .refl
    · split
      · rw [failHost_world]
      · rename_i is
        exact .enter is
  · exact .effect _
  · dsimp only
    split
    · exact (hostAnswer_moves h).trans (resume_moves _ _ _)
    · exact hostAnswer_moves h

theorem codeStep_moves (a : Activation) : w.Moves (codeStep w a below).world := by
  have moves := Exec.step_moves { world := w, act := a }
  unfold codeStep
  split
  all_goals
    rename_i is
    rw [is] at moves
  · exact moves
  · exact moves.trans (leave_moves _ _)
  · exact moves.trans (startHost_moves _ _ _ _ _)
  · exact moves.trans (leave_moves _ _)

/-- A step of the machine makes moves only. -/
theorem step_moves (w : World) (top : Task) (below : List Task) :
    w.Moves (step w top below).world := by
  unfold step
  cases top with
  | code a => exact codeStep_moves a
  | host h => exact hostStep_moves h

theorem run_moves {fuel : Nat} {top : Task} {w' : World} {result : Except Error (Option Val)}
    (is : run fuel w top below = some (w', result)) : w.Moves w' := by
  induction fuel generalizing w top below with
  | zero => cases is
  | succ fuel ih =>
    have stepped := step_moves w top below
    rw [run] at is
    split at is
    · next next =>
      rw [next] at stepped
      exact stepped.trans (ih is)
    · next last =>
      rw [last] at stepped
      cases is
      exact stepped

end Machine

/-! ### Instantiation -/

namespace World
variable {w w' : World} {engine : Nat}

theorem resolveTable_ok {desc : TableDesc} {source : ImportName} {id : Nat}
    (is : w.resolveTable engine desc source id = .ok w') :
    w.tables[id]? = none ∧ w' = w ∨ ∃ tbl bound, w.tables[id]? = some tbl ∧
      desc.bounds.admits tbl.size tbl.bounds ∧
      tbl.bind? engine = some bound ∧ w' = w.onTable id fun _ => bound := by
  unfold resolveTable at is
  split at is
  · next none =>
    cases is
    exact .inl ⟨none, rfl⟩
  · next tbl there =>
    cases fits : desc.bounds.admits tbl.size tbl.bounds with
    | false =>
      rw [fits] at is
      split at is <;> cases is
    | true =>
      rw [fits] at is
      split at is
      · next bound own =>
        cases is
        exact .inr ⟨tbl, bound, there, fits, own, rfl⟩
      · cases is

theorem bind?_eq_some {tbl bound : Table} (is : tbl.bind? engine = some bound) :
    bound = { tbl with engine := some engine } ∧
      (tbl.engine = some engine ∨ tbl.engine = none) := by
  unfold Table.bind? at is
  split at is
  · next own =>
    split at is
    · next same =>
      cases is
      subst same
      exact ⟨by rw [← own], .inl own⟩
    · cases is
  · next free =>
    cases is
    exact ⟨rfl, .inr free⟩

theorem resolveTables_moves (descs : List TableDesc) (given : List Nat) :
    w.Moves (w.resolveTables engine descs given).1 := by
  fun_induction resolveTables w engine descs given with
  | case1 | case2 | case4 | case5 => exact .refl
  | case3 w desc descs given source w' rest is ih =>
    rw [is] at ih
    exact ih
  | case6 w desc descs source id given source' w' resolved w'' rest is ih =>
    rw [is] at ih
    refine Relation.ReflTransGen.trans ?_ ih
    obtain ⟨-, rfl⟩ | ⟨tbl, bound, -, -, -, rfl⟩ := resolveTable_ok resolved
    · exact .refl
    · exact Moves.aside rfl rfl

theorem placeTokens_moves (engine : Nat) (env : Env) (sigs : List Nat) (data : GlobalData)
    (tokens : List Nat) :
    w.Moves (w.placeTokens engine env sigs data tokens).1 := by
  induction sigs generalizing w data tokens with
  | nil => exact .refl
  | cons sig sigs ih =>
    unfold placeTokens
    dsimp only
    split
    · exact (Move.register _ _).one.trans (ih _ _)
    · exact (Move.register _ _).one

theorem addSources_moves (sources : List Source) : w.Moves (w.addSources engine sources).1 := by
  induction sources generalizing w with
  | nil => exact .refl
  | cons source rest ih =>
    have one : w.Moves (w.addSource engine source).1 := by cases source <;> exact .aside rfl rfl
    unfold addSources
    exact one.trans ih

theorem length_addSources (sources : List Source) :
    (w.addSources engine sources).2.length = sources.length := by
  induction sources generalizing w with
  | nil => rfl
  | cons source rest ih => exact congrArg (· + 1) ih

theorem addMemorySource_moves (source : Option Source) : w.Moves (w.addMemorySource source).1 := by
  unfold addMemorySource
  split <;> exact .aside rfl rfl

theorem writeDataSegments_moves (memory : Option Nat) (segments : List (DataSegment × Nat)) :
    w.Moves (w.writeDataSegments memory segments) := by
  unfold writeDataSegments
  split
  · exact .refl
  · refine .foldl (fun _ _ => ?_) segments
    exact .aside rfl rfl

theorem instances_register (engine : Nat) (sig : Sig) :
    (w.register engine sig).1.instances = w.instances := by
  unfold register
  split <;> rfl

/-- Elements are made by registering their signatures. -/
theorem makeElems_moves (owner : Nat) (env : Env) (funcs : List (Option Nat × Option Nat)) :
    w.Moves (w.makeElems engine owner env funcs).1 := by
  fun_induction makeElems w engine owner env funcs with
  | case1 => exact .refl
  | case2 w func entry rest w' token registered w'' elems made ih =>
    rw [made] at ih
    refine Relation.ReflTransGen.head ?_ ih
    simpa [registered] using Move.register (w := w) engine ((env.sigOf? func).getD ⟨[], none⟩)
  | case3 w func rest _ w' elems made ih =>
    rw [made] at ih
    exact ih

theorem writeElems_moves (table place : Nat) (elems : List (Option FuncRef)) :
    w.Moves (w.writeElems engine table place elems) := by
  induction elems generalizing w place with
  | nil => exact .refl
  | cons elem rest ih =>
    have one : w.Moves (w.onTable table fun t => t.setElems place [elem]) := .aside rfl rfl
    unfold writeElems
    dsimp only
    cases (w.tables[table]?.bind (·.elems[place]?)).join with
    | none => exact one.trans (ih _)
    | some old => exact (one.trans (Move.release engine old.token).one).trans (ih _)

theorem writeElemSegments_moves (owner : Nat) (m : Module) (tables : Array Nat)
    (segments : List (ElemSegment × FuncPtrTable × Nat)) :
    w.Moves (w.writeElemSegments engine owner m tables segments) := by
  induction segments generalizing w with
  | nil => exact .refl
  | cons s rest ih =>
    unfold writeElemSegments
    exact ((makeElems_moves owner m.env _).trans (writeElems_moves _ _ _)).trans ih

theorem build_moves (m : Module) (funcs : List Nat) (tables : List Source) (memory : Option Source)
    (tokens : List Nat) (p : Plan) :
    w.Moves (w.build m engine funcs tables memory tokens p).1 := by
  have sources : w.Moves (w.addSources engine tables).1 := addSources_moves tables
  unfold build
  dsimp only
  refine Relation.ReflTransGen.trans ?_ (writeDataSegments_moves _ _)
  refine sources.trans ((addMemorySource_moves memory).trans ?_)
  exact .head (Move.inst _) (writeElemSegments_moves _ m _ _)

/-- Instantiation makes moves only, whether it is refused or not. -/
theorem instantiate_moves (w : World) (m : Module) (engine : Nat) (imports : Imports) :
    w.Moves (w.instantiate m engine imports).1 := by
  unfold instantiate
  split
  · exact .refl
  · have resolved : w.Moves (w.resolveTables engine m.env.tables.toList imports.tables).1 :=
      resolveTables_moves _ _
    split
    all_goals
      rename_i is
      rw [is] at resolved
      dsimp only at resolved
    · exact resolved
    · split
      · exact resolved
      · split
        · exact resolved
        · have placed :=
            resolved.trans
              (placeTokens_moves engine m.env m.indirectSigs.toList (.zero m.env.globalDataLen) [])
          dsimp only
          split
          · exact placed.trans (Moves.releaseAll _ _)
          · exact placed.trans (build_moves _ _ _ _ _ _)

end World
end Wasmill

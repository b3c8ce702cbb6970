import Wasmill.Proofs.Generator.Fitting
import Wasmill.Proofs.Generator.Tiling

/-! What a generator makes is kept in 32 bits, after any history.

This needs slots that were made against the generator's own declarations: the code that is made in
another slot may name signatures that are not there. -/
namespace Wasmill
open Code Steps List

namespace Generator
variable {g g' : Generator} {env : Env} {slot : CompileSlot} {tasks : List CompileTask} {sigs : Nat}
  {stubs : StubOffsets}
  {lines : List Line}

/-! ### Definitions -/

/-- However it ends, the computation keeps all in bounds, once the declarations are frozen. -/
def Fitting {α : Type} (env : Env) (x : Gen α) (Q : α → Prop) : Prop :=
  ∀ g, Fits env g → g.frozen = true →
    Leads x g (fun a g' => (Fits env g' ∧ g'.frozen = true) ∧ Q a)
      (fun _ g' => Fits env g' ∧ g'.frozen = true)

section
variable {α β : Type} {x : Gen α} {f : α → Gen β} {P : α → Prop} {Q : β → Prop}

theorem fitting_pure {a : α} (h : P a) : Fitting env (pure a : Gen α) P :=
  fun _ fits frozen => leads_pure.2 ⟨⟨fits, frozen⟩, h⟩

theorem fitting_fail (e : Error) : Fitting env (Gen.fail e : Gen α) P :=
  fun _ fits frozen => leads_throw.2 ⟨fits, frozen⟩

theorem fitting_lift {r : Except Error α} (h : ∀ a, r = .ok a → P a) :
    Fitting env (liftM r : Gen α) P := by
  intro g fits frozen
  rw [leads_lift]
  cases r with
  | error e => exact ⟨fits, frozen⟩
  | ok a => exact ⟨⟨fits, frozen⟩, h a rfl⟩

theorem fitting_get : Fitting env (get : Gen Generator) (fun g => Fits env g ∧ g.frozen = true) :=
  fun _ fits frozen => leads_get.2 ⟨⟨fits, frozen⟩, fits, frozen⟩

theorem fitting_bind (first : Fitting env x P) (rest : ∀ a, P a → Fitting env (f a) Q) :
    Fitting env (x >>= f) Q := by
  intro g fits frozen
  rw [leads_bind]
  exact (first g fits frozen).imp (fun a g' ⟨⟨fits', frozen'⟩, p⟩ => rest a p g' fits' frozen')
    fun _ _ h => h

theorem fitting_modify {f : Generator → Generator} (keeps : ∀ g, Fits env g → Fits env (f g))
    (frozen : ∀ g, (f g).frozen = g.frozen) : Fitting env
    (modify f : Gen PUnit) (fun _ => True) := by
  intro g fits isFrozen
  rw [leads_modify]
  exact ⟨⟨keeps g fits, (frozen g).trans isFrozen⟩, trivial⟩

theorem fitting_onLayout {step : Laying α} (keeps : ∀ l : Layout, l.Fits env.sigs.size →
      Leads step l (fun a l' => l'.Fits env.sigs.size ∧ P a) fun _ l' =>
        l'.Fits env.sigs.size) : Fitting env (Gen.onLayout step) P := by
  intro g fits frozen
  rw [Gen.leads_onLayout]
  exact (keeps g.layout fits.layout).imp (fun _ layout h =>
    ⟨⟨{ fits with layout := h.1 }, frozen⟩, h.2⟩)
    fun _ layout h => ⟨{ fits with layout := h }, frozen⟩

end

/-- The state with other free slots. -/
theorem Fits.setFree (h : Fits env g) (frozen : g.frozen = true) {free : List CompileSlot}
    (own : ∀ slot ∈ free, slot.env = env) :
    Fits env { g with free } := by
  refine { h with early := fun unfrozen => ?_, free := own }
  rw [show g.frozen = false from unfrozen] at frozen
  cases frozen

theorem Fits.addFree (h : Fits env g) (frozen : g.frozen = true) (own : slot.env = env) :
    Fits env { g with free := slot :: g.free } :=
  h.setFree frozen (forall_mem_cons.2 ⟨own, h.free⟩)

theorem fitting_finishTask {task : CompileTask} (h : TaskFits env task) :
    Fitting env (Gen.finishTask task) (fun _ => True) := by
  intro g fits frozen
  have freed := fits.addFree frozen h.own
  rw [Gen.leads_finishTask]
  split
  · rename_i c made
    have small : min task.slot.offset 0xffffffff < UInt32.size :=
      Nat.lt_of_le_of_lt (Nat.min_le_right _ _) (by decide)
    exact (fits.layout.appendFunction (h.output c made) h.func small).imp
      (fun _ _ layout => ⟨⟨{ freed with layout }, frozen⟩, trivial⟩) fun _ _ layout =>
        ⟨{ freed with layout }, frozen⟩
  · exact ⟨freed, frozen⟩

theorem fitting_finishTasks (h : ∀ task ∈ tasks, TaskFits env task) :
    Fitting env (Gen.finishTasks tasks) (fun _ => True) := by
  induction tasks with
  | nil => exact fitting_pure trivial
  | cons task tasks ih =>
    intro g fits frozen
    have others := ih fun task mem => h task (mem_cons_of_mem _ mem)
    rw [Gen.leads_finishTasks_cons]
    refine (fitting_finishTask (h task mem_cons_self) g fits frozen).imp
      (fun _ g₁ h => others g₁ h.1.1 h.1.2)
      fun _ g₁ h => (others g₁ h.1 h.2).imp (fun _ _ h => h.1) fun _ _ h => h

/-- The state with other tasks. -/
theorem Fits.setHelpers (h : Fits env g) (frozen : g.frozen = true)
    (all : ∀ task ∈ tasks, TaskFits env task) : Fits env { g with helpers := some tasks } := by
  refine { h with early := fun unfrozen => ?_, tasks := all }
  rw [show g.frozen = false from unfrozen] at frozen
  cases frozen

theorem fitting_finishDefs : Fitting env Gen.finishDefs (fun _ => True) := by
  intro g fits frozen
  rw [Gen.leads_finishDefs]
  refine fitting_finishTasks fits.tasks _
    { fits with early := fun none' => ?_, tasks := fun task mem => ?_ } frozen
  · exact ⟨(fits.early none').1, congrArg (Option.map fun _ => []) (fits.early none').2.1,
      (fits.early none').2.2⟩
  · have mem : task ∈ (g.helpers.map fun _ => []).getD [] := mem
    cases is : g.helpers <;> rw [is] at mem <;> cases mem

/-- Slots are made against the declarations as they are frozen. -/
theorem Fits.startDefs (h : Fits env g) :
    Leads Gen.startDefs g (fun _ g' => Fits env g' ∧ g'.frozen = true) (fun _ _ => False) := by
  unfold Gen.startDefs
  rw [leads_modify]
  cases frozen : g.frozen with
  | true => exact ⟨h, frozen⟩
  | false =>
    rw [if_neg nofun]
    refine ⟨{ h with early := nofun, free := fun slot mem => ?_, tasks := fun task mem => ?_ }, rfl⟩
    · rw [(mem_replicate.1 mem).2]
      exact h.same
    · unfold waiting at mem
      dsimp only at mem
      split at mem <;> cases mem

theorem Fits.startDef (h : Fits env g) :
    Leads Gen.startDef g (fun slot g' => (Fits env g' ∧ g'.frozen = true) ∧ slot.env = env)
      (fun _ g' => Fits env g' ∧ g'.frozen = true) := by
  rw [Gen.leads_startDef]
  refine h.startDefs.imp (fun _ g₁ ⟨fits, frozen⟩ => ?_) fun _ _ => False.elim
  split
  · rename_i slot free is
    obtain ⟨own, others⟩ := forall_mem_cons.1 (is ▸ fits.free)
    exact ⟨⟨fits.setFree frozen others, frozen⟩, own⟩
  · rename_i task rest _ is
    have known : ∀ t ∈ task :: rest, TaskFits env t := fun t mem => fits.tasks t (is ▸ mem)
    have others := fits.setHelpers frozen fun t mem => known t (mem_cons_of_mem _ mem)
    have first := known task mem_cons_self
    exact (fitting_finishTask first _ others frozen).imp
      (fun _ _ h' => ⟨⟨h'.1.1.setFree h'.1.2 (by simp), h'.1.2⟩, first.own⟩) fun _ _ h' => h'
  · exact ⟨fits, frozen⟩

theorem Fits.logs (h : Fits env g) {func : Nat} {f : Ssa.Function}
    (made : ∃ slot : CompileSlot, slot.env = env ∧ slot.CompilesTo func f)
    (frozen : g.frozen = true) : Fits env { g with log := g.log.push (func, f) } := by
  refine { h with early := fun unfrozen => ?_, log := fun func' f' mem => ?_ }
  · rw [show g.frozen = false from unfrozen] at frozen
    cases frozen
  · rcases Array.mem_push.1 mem with mem | is
    · exact h.log func' f' mem
    · cases is
      exact made

theorem fitting_compile (own : slot.env = env) (func : Nat) :
    Fitting env (Gen.compile slot func) (fun output => ∀ c,
      output = .ok c → c.Fits env.sigs.size) := by
  intro g fits frozen
  unfold Gen.compile
  split
  · exact leads_throw.2 ⟨fits, frozen⟩
  rename_i sig known
  split
  · rename_i f is
    rw [leads_bind, leads_modify, leads_pure]
    refine ⟨⟨fits.logs ⟨slot, own, sig, known, is⟩ frozen, frozen⟩, fun c made => ?_⟩
    rw [own] at is
    exact Chunk.ofFunction_fits (Ssa.Function.ofBody_proper is).1 fits.fit made
  · rw [leads_pure]
    exact ⟨⟨fits, frozen⟩, by rintro _ ⟨⟩⟩

theorem fitting_finishDef (own : slot.env = env) (func : Nat) :
    Fitting env (Gen.finishDef func slot) (fun _ => True) := by
  intro g fits frozen
  rw [Gen.leads_finishDef]
  split
  · exact ⟨fits, frozen⟩
  rename_i isDefined
  have small : func < UInt32.size := by
    have isDefined : g.env.isDefined func = true := by simpa using isDefined
    rw [fits.same, isDefined_iff] at isDefined
    exact Nat.lt_trans isDefined.2 fits.fit.funcCount
  split
  · exact ⟨fits.addFree frozen own, frozen⟩
  have noted : Fits env { g with defined := func :: g.defined } := { fits with }
  split
  · exact ⟨noted.addFree frozen own, frozen⟩
  · refine (fitting_compile own func _ noted frozen).imp
      (fun output g₂ ⟨⟨fits₂, frozen₂⟩, all⟩ => ?_) fun _ _ h => h
    have task : TaskFits env ⟨slot, func, output⟩ := ⟨own, small, all⟩
    split
    · rename_i tasks is
      refine ⟨⟨fits₂.setHelpers frozen₂ fun t mem => ?_, frozen₂⟩, trivial⟩
      rcases mem_append.1 mem with mem | mem
      · refine fits₂.tasks t ?_
        unfold waiting
        rw [is]
        exact mem
      · rw [mem_singleton.1 mem]
        exact task
    · exact fitting_finishTask task g₂ fits₂ frozen₂

/-! ### The code that is made once -/

/-- Stubs expect no signature, and blame no operator. -/
theorem fits_ofLines (fits : ∀ line ∈ lines, line.Fits sigs) : (Chunk.ofLines lines).Fits sigs := by
  refine ⟨⟨lines, Chunk.ofLines_madeOf lines, fits⟩, ?_⟩
  have entry : ∀ (lines : List Line) (c : Chunk), (lines.foldl Chunk.add c).entry = c.entry := by
    intro lines
    induction lines with
    | nil => exact fun _ => rfl
    | cons line lines ih => exact fun c => ih (c.add line)
  show (lines.foldl Chunk.add {}).entry ≤ _
  rw [entry]
  exact Nat.zero_le _

theorem fits_silentLines
    (silent : ∀ line ∈ lines, line.traps = none ∧ line.calls = none ∧ line.expects = none) :
    (Chunk.ofLines lines).Fits sigs :=
  fits_ofLines fun line mem => Line.fits_of_silent (silent line mem).1 (silent line mem).2.1
    (silent line mem).2.2

theorem fitting_append {c : Chunk} {kind : RangeKind} (chunk : c.Fits env.sigs.size)
    (placed : ∀ start, start + c.entry < UInt32.size → (kind.placed start c.entry).Fits) :
    Fitting env (Gen.onLayout (.append c kind)) (· < UInt32.size) :=
  fitting_onLayout fun _ old => (old.append kind chunk placed).imp (fun _ _ h => ⟨h.1, by omega⟩)
    fun _ _ h => h

theorem fitting_entryStubs {xs : List (Nat × Export)}
    (small : ∀ x ∈ xs, x.1 < UInt32.size ∧ x.2.func < UInt32.size) :
    Fitting env (Gen.entryStubs xs) (fun _ => True) := by
  induction xs with
  | nil => exact fitting_pure trivial
  | cons x xs ih =>
    obtain ⟨index, called⟩ := small x mem_cons_self
    refine fitting_bind fitting_get fun g _ =>
      fitting_bind (fitting_append (fits_ofLines ?_) fun _ _ => index) fun entry lt => ?_
    · intro line mem
      simp only [mem_cons, not_mem_nil, or_false] at mem
      rcases mem with rfl | rfl | rfl
      · exact Line.fits_of_silent rfl rfl rfl
      · refine ⟨nofun, fun callee bytecode is => ?_, nofun⟩
        cases is
        exact ⟨called, by decide⟩
      · exact Line.fits_of_silent rfl rfl rfl
    · refine fitting_bind (fitting_modify (fun g fits => ?_) (fun _ => rfl)) fun _ _ =>
        ih fun x mem => small x (mem_cons_of_mem _ mem)
      refine { fits with exports := ⟨fun f mem => ?_, fits.exports.names⟩, exportCount := ?_ }
      · obtain ⟨i, at'⟩ := getElem?_of_mem mem
        rw [Array.getElem?_toList, Array.getElem?_modify] at at'
        split at at'
        · obtain ⟨old, known, rfl⟩ := Option.map_eq_some_iff.1 at'
          have fit := fits.exports.funcs old (mem_toList_of_at known)
          exact ⟨fit.1, fit.2.1, lt⟩
        · exact fits.exports.funcs f (mem_toList_of_at at')
      · show (g.exports.funcs.modify _ _).size ≤ _ ∧ _
        rw [Array.size_modify]
        exact fits.exportCount

theorem fitting_importExits {xs : List (Nat × FuncImport)} (small : ∀ x ∈ xs, x.1 < UInt32.size) :
    Fitting env (Gen.importExits xs) (fun _ => True) := by
  induction xs with
  | nil => exact fitting_pure trivial
  | cons x xs ih =>
    have index := small x mem_cons_self
    have exit : ∀ (optimized : Bool) (symbol : Symbol) (sig : Sig),
        (Chunk.exitStub optimized symbol x.1 sig).Fits env.sigs.size := by
      intro optimized symbol sig
      refine fits_silentLines fun line mem => ?_
      simp only [mem_cons, not_mem_nil, or_false] at mem
      rcases mem with rfl | rfl | rfl <;> exact ⟨rfl, rfl, rfl⟩
    refine fitting_bind fitting_get fun g _ =>
      fitting_bind (fitting_append (exit _ _ _) fun _ _ => index) fun interp lt =>
      fitting_bind (fitting_append (exit _ _ _) fun _ _ => index) fun jit lt' => ?_
    refine fitting_bind (fitting_modify (fun g fits => ?_) (fun _ => rfl)) fun _ _ =>
      ih fun x mem => small x (mem_cons_of_mem _ mem)
    exact { fits with
      layout := fits.layout.setEntry _ lt, importExits :=
        fun exit => mem_push fits.importExits ⟨lt, lt'⟩ }

theorem fitting_sharedStubs : Fitting env Gen.sharedStubs StubOffsets.Fits := by
  have trap : ∀ trap : Trap, (Chunk.trapStub trap).Fits env.sigs.size := by
    intro trap
    refine fits_silentLines fun line mem => ?_
    rw [mem_singleton.1 mem]
    exact ⟨rfl, rfl, rfl⟩
  have throw : Chunk.throwStub.Fits env.sigs.size := by
    refine fits_silentLines fun line mem => ?_
    rw [mem_singleton.1 mem]
    exact ⟨rfl, rfl, rfl⟩
  exact fitting_bind (fitting_append (trap _) fun _ _ => trivial) fun _ first =>
    fitting_bind (fitting_append (trap _) fun _ _ => trivial) fun _ second =>
    fitting_bind (fitting_append (trap _) fun _ _ => trivial) fun _ third =>
    fitting_bind (fitting_append throw fun _ _ => trivial) fun _ fourth =>
      fitting_pure ⟨first, second, third, fourth⟩

theorem stub_lt {s : StubOffsets} (h : s.Fits) (kind : StubKind) : s.get kind < UInt32.size := by
  cases kind with
  | outOfBounds => exact h.1
  | interrupt => exact h.2.1
  | stackOverflow => exact h.2.2.1
  | throw => exact h.2.2.2

theorem fitting_linkStubs (small : stubs.Fits) :
    Fitting env (Gen.linkStubs stubs) (fun _ => True) := by
  refine fitting_modify (fun g fits => ?_) (fun _ => rfl)
  have l := fits.layout
  refine { fits with layout := { l with pendingStubs := by simp, link := ⟨fun link mem => ?_,
    l.link.symbolic, l.link.funcPtrs⟩ } }
  dsimp only at mem
  rw [Array.toList_append, Array.toList_map] at mem
  rcases mem_append.1 mem with mem | mem
  · exact l.link.internal link mem
  · obtain ⟨⟨place, kind⟩, there, rfl⟩ := mem_map.1 mem
    exact ⟨l.pendingStubs _ there, stub_lt small kind⟩

theorem fitting_linkThunks {xs : List (Nat × Nat)} (small : ∀ x ∈ xs, x.1 < UInt32.size) :
    Fitting env (Gen.linkThunks xs) (fun _ => True) := by
  induction xs with
  | nil => exact fitting_pure trivial
  | cons x xs ih =>
    refine fitting_bind fitting_get fun g ⟨held, _⟩ => ?_
    split
    · rename_i entry is
      refine fitting_bind (fitting_modify (fun g fits => ?_) (fun _ => rfl)) fun _ _ =>
        ih fun x mem => small x (mem_cons_of_mem _ mem)
      have l := fits.layout
      exact { fits with layout := { l with link := ⟨fun link => mem_push l.link.internal
        ⟨small x mem_cons_self, held.layout.entries _ entry is⟩, l.link.symbolic,
          l.link.funcPtrs⟩ } }
    · exact fitting_fail _

theorem elemEntries_fit {layout : Layout} (h : layout.Fits sigs) {funcs entries : List (Option Nat)}
    (is : Gen.elemEntries layout funcs = .ok entries) :
    ∀ entry ∈ entries, ∀ place, entry = some place → place < UInt32.size := by
  rintro _ mem place rfl
  unfold Gen.elemEntries at is
  rw [mapM_ok] at is
  have listed : .ok (some place) ∈ entries.map (Except.ok (ε := Error)) := mem_map.2 ⟨_, mem, rfl⟩
  rw [← is] at listed
  obtain ⟨func, _, found⟩ := mem_map.1 listed
  cases func with
  | none => cases found
  | some func =>
    dsimp only at found
    split at found
    · rename_i entry known
      cases found
      exact h.entries func place known
    · cases found

theorem fitting_linkElems {xs : List ElemSegment} (small : ∀ s ∈ xs, s.table < UInt32.size) :
    Fitting env (Gen.linkElems xs) (fun _ => True) := by
  induction xs with
  | nil => exact fitting_pure trivial
  | cons x xs ih =>
    refine fitting_bind fitting_get fun g ⟨held, _⟩ => ?_
    refine fitting_bind (fitting_lift fun entries is => elemEntries_fit held.layout is)
      fun entries all => ?_
    refine fitting_bind (fitting_modify (fun g' fits => ?_) (fun _ => rfl)) fun _ _ =>
      ih fun x mem => small x (mem_cons_of_mem _ mem)
    have l := fits.layout
    have handle : (g.env.tables[x.table]?.map (·.handle)).getD 0 < UInt32.size := by
      cases known : g.env.tables[x.table]? with
      | none => exact show 0 < UInt32.size by decide
      | some t =>
        rw [held.same] at known
        exact (held.fit.tables t (mem_toList_of_at known)).2
    exact { fits with layout := { l with link := ⟨l.link.internal, l.link.symbolic,
      fun t => mem_push l.link.funcPtrs ⟨small x mem_cons_self, handle, all⟩⟩ } }

theorem fitting_checkBodies : Fitting env Gen.checkBodies (fun _ => True) := by
  refine fitting_bind fitting_get fun g _ => ?_
  split
  · exact fitting_fail _
  · exact fitting_pure trivial

section
variable (h : Fits env g)
include h

theorem Fits.tables_lt {s : ElemSegment} (mem : s ∈ g.elems.toList) : s.table < UInt32.size :=
  Nat.lt_trans (Nat.lt_of_lt_of_le (h.elems s mem).table h.fit.tableCount) h.fit.globalDataLen

/-- The code is finished within 32 bits. Finishing freezes the declarations. -/
theorem Fits.finishCodegen : Leads Gen.finishCodegen g (fun _ => Fits env) (fun _ => Fits env) := by
  unfold Gen.finishCodegen
  rw [leads_bind, leads_get]
  split
  · exact leads_pure.2 h
  rw [leads_bind, leads_modify]
  have frozen : Fits env { g with frozen := true } := { h with early := nofun }
  refine ((?_ : Fitting env _ fun _ => True) _ frozen rfl).imp (fun _ _ h => h.1.1) fun _ _ h => h.1
  refine fitting_bind fitting_finishDefs fun _ _ => fitting_bind fitting_checkBodies fun _ _ =>
    fitting_bind fitting_get fun g ⟨held, _⟩ => ?_
  refine fitting_bind (fitting_entryStubs ?_) fun _ _ =>
    fitting_bind fitting_get fun g ⟨held, _⟩ => ?_
  · rintro ⟨index, e⟩ mem
    obtain ⟨lt, known⟩ := Array.getElem?_eq_some_iff.1 (mem_indexed.1 mem)
    have fit := held.exports.funcs e (Array.mem_toList_iff.2 (known ▸ Array.getElem_mem lt))
    exact ⟨Nat.lt_of_lt_of_le lt
      (Nat.le_trans held.exportCount.1 (Nat.le_of_lt held.exportCount.2)), fit.1⟩
  refine fitting_bind (fitting_importExits ?_) fun _ _ =>
    fitting_bind fitting_sharedStubs fun stubs small => ?_
  · rintro ⟨index, desc⟩ mem
    have known := mem_indexed.1 mem
    rw [held.same] at known
    obtain ⟨lt, _⟩ := Array.getElem?_eq_some_iff.1 known
    exact Nat.lt_of_lt_of_le lt
      (Nat.le_trans held.fit.importCount (Nat.le_of_lt held.fit.funcCount))
  refine fitting_bind (fitting_onLayout (P := fun _ => True) fun l old => ?_) fun _ _ => ?_
  · exact old.thunkPass.imp (fun _ _ h => ⟨h, trivial⟩) fun _ _ h => h
  refine fitting_bind (fitting_linkStubs small) fun _ _ =>
    fitting_bind fitting_get fun g ⟨held, _⟩ => ?_
  refine fitting_bind (fitting_modify (fun g fits => ?_) (fun _ => rfl)) fun _ _ => ?_
  · have l := fits.layout
    exact { fits with layout := { l with thunkTargets := by simp } }
  refine fitting_bind (fitting_linkThunks held.layout.thunkTargets) fun _ _ =>
    fitting_bind fitting_get fun g ⟨held, _⟩ => ?_
  refine fitting_bind (fitting_linkElems fun s mem => held.tables_lt mem) fun _ _ =>
    fitting_modify (fun g fits => ?_) (fun _ => rfl)
  have l := fits.layout
  refine { fits with layout := { l with indirectSigs := fun sig mem => ?_ }, stubs := fun s is =>
    ?_ }
  · exact l.indirectSigs sig
      (Array.mem_toList_iff.2 (mem_sortedOnce.1 (Array.mem_toList_iff.1 mem)))
  · cases is
    exact small

/-! ### Histories -/

/-- Only a slot that was opened here, after the declarations, is given back. -/
def Request.Own (g : Generator) : Request → Prop
  | .closeSlot _ slot => g.frozen = true ∧ slot.env = g.env
  | _ => True

def Request.Fits : Request → Prop
  | .declare d => d.Fits
  | _ => True

theorem Fits.perform {r : Request} (fits : r.Fits) (own : r.Own g) :
    ∃ env', Fits env' (r.perform g).2 ∧ env'.interruptMode = env.interruptMode := by
  cases r with
  | declare d =>
    refine Leads.state (P := fun g' => ∃ env',
      Fits env' g' ∧ env'.interruptMode = env.interruptMode) ?_
    show Leads (Gen.declare _) g _ _
    rw [Gen.leads_declare]
    cases is : g.declared d with
    | error e => exact ⟨env, h, rfl⟩
    | ok g' => exact h.declared fits is
  | startDefs =>
    exact ⟨env, Leads.state (h.startDefs.imp (fun _ _ h => h.1) fun _ _ => False.elim), rfl⟩
  | openSlot =>
    refine ⟨env, Leads.state (P := Fits env) ?_, rfl⟩
    show Leads (Gen.startDef >>= fun _ => pure ()) g _ _
    rw [leads_bind]
    exact h.startDef.imp (fun _ _ h => leads_pure.2 h.1.1) fun _ _ h => h.1
  | closeSlot func slot =>
    obtain ⟨frozen, same⟩ := own
    exact ⟨env,
      Leads.state ((fitting_finishDef (same.trans h.same) func g h frozen).imp (fun _ _ h => h.1.1)
        fun _ _ h => h.1), rfl⟩
  | define func body offset =>
    refine ⟨env, Leads.state (P := Fits env) ?_, rfl⟩
    show Leads (Gen.define func body offset) g _ _
    unfold Gen.define
    rw [leads_bind]
    refine h.startDef.imp (fun slot g₁ ⟨⟨fits₁, frozen⟩, own⟩ => ?_) fun _ _ h => h.1
    have own : (slot.setBody body offset).env = env := own
    exact (fitting_finishDef own func g₁ fits₁ frozen).imp (fun _ _ h => h.1.1) fun _ _ h => h.1
  | finishDefs =>
    refine ⟨env, Leads.state (P := Fits env) ?_, rfl⟩
    show Leads Gen.finishDefs g _ _
    cases frozen : g.frozen with
    | true => exact (fitting_finishDefs g h frozen).imp (fun _ _ h => h.1.1) fun _ _ h => h.1
    | false =>
      unfold Gen.finishDefs
      rw [leads_bind, leads_get, (h.early frozen).2.1]
      exact leads_pure.2 h
  | finishCodegen => exact ⟨env, Leads.state h.finishCodegen, rfl⟩

theorem Fits.after {history : List Request} (fits : ∀ r ∈ history, r.Fits)
    (own : Along Request.Own g history) :
    ∃ env', Fits env' (g.after history) ∧ env'.interruptMode = env.interruptMode := by
  induction history generalizing g env with
  | nil => exact ⟨env, h, rfl⟩
  | cons r rest ih =>
    obtain ⟨env₁, performed, same⟩ := h.perform (fits r mem_cons_self) own.1
    obtain ⟨env', fits', same'⟩ := ih performed (fun r mem => fits r (mem_cons_of_mem _ mem)) own.2
    exact ⟨env', fits', same'.trans same⟩

end

/-! ### Modules -/

theorem mem_sortedNames {names : Array (Nat × String)} {name : Nat × String}
    (mem : name ∈ (Gen.sortedNames names).toList) :
    name ∈ names.toList :=
  mem_mergeSort.1 (mem_eraseRepsBy.1 mem)

theorem Fits.module (h : Fits env g) (small : g.layout.code.size < UInt32.size)
    (fits : stubs.Fits) : (Gen.module g stubs).Fits := by
  have l := h.layout
  have start := h.start
  have elems := h.elems
  have sigs := l.indirectSigs
  have fit := h.fit
  rw [← h.same] at start elems sigs fit
  refine ⟨fit, small, l.ranges, l.trapSites, l.callSites, start, fun entry is => ?_,
    elems, fits, sigs,
    fun name mem => h.funcNames name (mem_sortedNames mem), l.link, fun i mem =>
      ?_, h.exports, h.data⟩
  · obtain ⟨func, _, placed⟩ := Option.bind_eq_some_iff.1 is
    exact l.entries func entry placed
  · have mem : i ∈ ((g.env.funcImports.zip g.importExits).map _).toList := mem
    rw [Array.toList_map, Array.toList_zip] at mem
    obtain ⟨⟨desc, exit⟩, both, rfl⟩ := mem_map.1 mem
    obtain ⟨left, right⟩ := of_mem_zip both
    rw [h.same] at left
    exact ⟨h.fit.funcImports desc left, h.importExits exit right⟩

/-- What is finished fits into an image. -/
theorem Fits.finish (h : Fits env g) {pieces : List Piece} {filled : Nat → Option Nat}
    (grown : Grown False g pieces filled)
    {m : Module} (finished : Gen.finish g = (.ok m, g')) :
    m.Fits ∧ m.env.interruptMode = env.interruptMode := by
  have done :
      Leads Gen.finish g (fun m g' => Fits env g' ∧ m = Gen.module g' (g'.stubs.getD default))
      (fun _ _ => True) := by
    unfold Gen.finish
    rw [leads_bind]
    refine h.finishCodegen.imp (fun _ g₁ fits => ?_) fun _ _ _ => trivial
    rw [leads_bind, leads_get, leads_pure]
    exact ⟨fits, rfl⟩
  obtain ⟨fits, rfl⟩ := done.ok finished
  obtain ⟨_, _, _, _, small, _⟩ := grown.finish.ok finished
  refine ⟨fits.module small ?_, congrArg Env.interruptMode fits.same⟩
  cases is : g'.stubs with
  | none => exact show StubOffsets.Fits default from ⟨by decide, by decide, by decide, by decide⟩
  | some stubs => exact fits.stubs stubs is

end Generator
end Wasmill

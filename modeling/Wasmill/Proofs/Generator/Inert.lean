import Wasmill.Proofs.Generator.Consistent

/-! What making code leaves alone, and what is left alone by everything but declarations. -/
namespace Wasmill
open Code Steps

/-- Compiling the body in the slot gives the function. -/
def CompileSlot.CompilesTo (slot : CompileSlot) (func : Nat) (f : Ssa.Function) : Prop :=
  ∃ sig, slot.env.sigOf? func = some sig ∧ Ssa.Function.ofBody slot.env sig
    (.ofBytes slot.body slot.offset) = .ok f

namespace Generator
variable {g g' : Generator} {α : Type}

/-- Only code was made, and exports may have got entries. -/
structure Made (g g' : Generator) : Prop where
  same : g' = { g with
    layout := g'.layout, exports := g'.exports, importExits := g'.importExits, stubs := g'.stubs }
  names : g'.exports.names = g.exports.names

instance : Lasting Made :=
  ⟨fun _ => ⟨rfl, rfl⟩, fun one two => ⟨by rw [two.same, one.same], two.names.trans one.names⟩⟩

/-- However it ends, the computation only makes code. -/
abbrev Makes (x : Gen α) : Prop := Respects Made (fun _ => True) x

instance (e : Error) : Makes (Gen.fail e : Gen α) := inferInstanceAs (Makes (throw e))

instance (layout : Generator → Layout) (importExits : Generator → Array (Nat × Nat))
    (stubs : Generator → Option StubOffsets) :
    Makes (modify fun g =>
      { g with layout := layout g, importExits := importExits g, stubs := stubs g }) :=
  .modify fun _ => ⟨rfl, rfl⟩

instance (step : Laying α) : Makes (Gen.onLayout step) :=
  ⟨fun _ => Gen.leads_onLayout.2
    (leads_any.imp (fun _ _ _ => ⟨rfl, rfl⟩) fun _ _ _ => ⟨⟨rfl, rfl⟩, trivial⟩)⟩

instance (index entry : Nat) : Makes (modify fun g => { g with exports := { g.exports with
    funcs := g.exports.funcs.modify index fun e => { e with entry } } }) :=
  .modify fun _ => ⟨rfl, rfl⟩

instance (xs : List (Nat × Export)) : Makes (Gen.entryStubs xs) := by
  induction xs with
  | nil => exact inferInstanceAs (Makes (pure _))
  | cons x xs ih => unfold Gen.entryStubs; infer_instance

instance (xs : List (Nat × FuncImport)) : Makes (Gen.importExits xs) := by
  induction xs with
  | nil => exact inferInstanceAs (Makes (pure _))
  | cons x xs ih => unfold Gen.importExits; infer_instance

instance (xs : List (Nat × Nat)) : Makes (Gen.linkThunks xs) := by
  induction xs with
  | nil => exact inferInstanceAs (Makes (pure _))
  | cons x xs ih =>
    unfold Gen.linkThunks Gen.addLink
    exact .seq fun g => by split <;> infer_instance

instance (xs : List ElemSegment) : Makes (Gen.linkElems xs) := by
  induction xs with
  | nil => exact inferInstanceAs (Makes (pure _))
  | cons x xs ih => dsimp only [Gen.linkElems]; infer_instance

instance : Makes Gen.checkBodies := .seq fun g => by split <;> infer_instance

instance : Makes Gen.sharedStubs := by unfold Gen.sharedStubs; infer_instance

instance (stubs : StubOffsets) : Makes
    (Gen.linkStubs stubs) := by dsimp only [Gen.linkStubs]; infer_instance

/-- The same is declared, and what is new in the log was compiled in some slot. -/
structure Alike (g g' : Generator) : Prop where
  config : g'.config = g.config
  env : g'.env = g.env
  importCount : g'.importCount = g.importCount
  start : g'.start = g.start
  elems : g'.elems = g.elems
  data : g'.data = g.data
  names : g'.exports.names = g.exports.names
  frozen : g.frozen = true → g'.frozen = true
  log : ∀ func f, (func, f) ∈ g'.log → (func, f) ∈ g.log ∨
    ∃ slot : CompileSlot, slot.CompilesTo func f

theorem Alike.of_code {free : List CompileSlot} {helpers : Option (List CompileTask)}
    {defined : List Nat} :
    Alike g { g with free, helpers, defined } :=
  ⟨rfl, rfl, rfl, rfl, rfl, rfl, rfl, id, fun _ _ => .inl⟩

instance : Lasting Alike := ⟨fun _ => .of_code, fun one two =>
  ⟨two.config.trans one.config, two.env.trans one.env, two.importCount.trans one.importCount,
    two.start.trans one.start,
    two.elems.trans one.elems, two.data.trans one.data, two.names.trans one.names,
    two.frozen ∘ one.frozen, fun func f mem => (two.log func f mem).elim (one.log func f) .inr⟩⟩

theorem Made.alike (h : Made g g') : Alike g g' := by
  refine ⟨?_, ?_, ?_, ?_, ?_, ?_, h.names, ?_, ?_⟩ <;> rw [h.same]
  · exact id
  · exact fun _ _ => .inl

/-- However it ends, the computation leaves alone what is declared. -/
abbrev Inert (x : Gen α) : Prop := Respects Alike (fun _ => True) x

instance (x : Gen α) [Makes x] : Inert x := .mono fun _ _ => Made.alike

instance (free : Generator → List CompileSlot) (helpers : Generator → Option (List CompileTask))
    (defined : Generator → List Nat) :
    Inert (modify fun g => { g with free := free g, helpers := helpers g, defined := defined g }) :=
  .modify fun _ => .of_code

instance : Inert Gen.startDefs := .modify fun g => by
  split
  · exact .of_code
  · exact ⟨rfl, rfl, rfl, rfl, rfl, rfl, rfl, fun _ => rfl, fun _ _ => .inl⟩

instance (task : CompileTask) : Inert (Gen.finishTask task) := by
  unfold Gen.finishTask; infer_instance

instance : Inert Gen.startDef := by
  refine ⟨fun g => Gen.leads_startDef.2
    ((Respects.leads (E := fun _ => True) g).imp (fun _ g₁ alike => ?_) fun _ _ h => h)⟩
  split
  · exact Lasting.trans alike .of_code
  · refine (Respects.after (Lasting.trans alike .of_code)).imp
      (fun _ _ alike => Lasting.trans alike .of_code) fun _ _ h => h
  · exact ⟨alike, trivial⟩

instance (slot : CompileSlot) (func : Nat) : Inert (Gen.compile slot func) := by
  unfold Gen.compile
  split
  · infer_instance
  rename_i sig known
  split
  · rename_i f yields
    have noted : Inert (modify fun g => { g with log := g.log.push (func, f) }) :=
      .modify fun g => ⟨rfl, rfl, rfl, rfl, rfl, rfl, rfl, id, fun func' f' mem => by
        rcases Array.mem_push.1 mem with old | new
        · exact .inl old
        · cases new
          exact .inr ⟨slot, sig, known, yields⟩⟩
    infer_instance
  · infer_instance

instance (func : Nat) (slot : CompileSlot) : Inert (Gen.finishDef func slot) := by
  refine ⟨fun g => Gen.leads_finishDef.2 ?_⟩
  split
  · exact ⟨.of_code, trivial⟩
  split
  · exact ⟨.of_code, trivial⟩
  split
  · exact ⟨.of_code, trivial⟩
  refine (Respects.after .of_code).imp (fun output g' alike => ?_) fun _ _ h => h
  split
  · exact Lasting.trans alike .of_code
  · exact Respects.after alike

instance (tasks : List CompileTask) : Inert (Gen.finishTasks tasks) := by
  induction tasks with
  | nil => exact inferInstanceAs (Inert (pure _))
  | cons task tasks ih =>
    refine .seq fun e => .seq fun e' => ?_
    split <;> infer_instance

instance : Inert Gen.finishDefs := .seq fun g => by split <;> infer_instance

/-- A module is finished only once. -/
theorem Gen.leads_finishCodegen_done {stubs : StubOffsets} {Q : Unit → Generator → Prop}
    {E : Error → Generator → Prop}
    (done : g.stubs = some stubs) : Leads Gen.finishCodegen g Q E ↔ Q () g := by
  unfold Gen.finishCodegen
  rw [leads_bind, leads_get, done, if_pos (show (some stubs).isSome = true from rfl), leads_pure]

/-- Otherwise the declarations are frozen first, and after the last bodies only code is made. -/
theorem leads_finishCodegen {R : Generator → Generator → Prop} [Lasting R]
    (made : ∀ g g', Made g g' → R g g')
    (bodies : Respects R (fun _ => True) Gen.finishDefs) (unfinished : g.stubs = none)
    (frozen : R g' { g with frozen := true }) :
    Leads Gen.finishCodegen g (fun _ => R g') fun _ => R g' := by
  dsimp only [Gen.finishCodegen]
  rw [leads_bind, leads_get, unfinished,
    if_neg (show ¬ (none : Option StubOffsets).isSome = true from Bool.false_ne_true), leads_bind,
    leads_modify]
  have code {x : Gen Unit} (makes : Makes x) {g₁ : Generator} (moved : R g' g₁) :
      Leads x g₁ (fun _ => R g') fun _ => R g' :=
    (makes.leads g₁).imp (fun _ _ h => Lasting.trans moved (made _ _ h)) fun _ _ h =>
      Lasting.trans moved (made _ _ h.1)
  refine leads_bind.2 ((Respects.after (E := fun _ => True) frozen).imp
    (fun _ g₁ moved => code ?_ moved) fun _ _ => And.left)
  refine .seq fun _ => .seq fun _ => .seq fun _ => .seq fun _ => .seq fun _ => .seq fun _ => ?_
  exact .seq fun _ => .seq fun _ => .seq fun _ => inferInstance

instance : Inert Gen.finishCodegen := by
  refine ⟨fun g => ?_⟩
  cases unfinished : g.stubs with
  | some stubs => exact (Gen.leads_finishCodegen_done unfinished).2 .of_code
  | none =>
    refine (leads_finishCodegen (fun _ _ => Made.alike) inferInstance unfinished ?_).imp
      (fun _ _ => id) fun _ _ h => ⟨h, trivial⟩
    exact ⟨rfl, rfl, rfl, rfl, rfl, rfl, rfl, fun _ => rfl, fun _ _ => .inl⟩

end Generator
end Wasmill

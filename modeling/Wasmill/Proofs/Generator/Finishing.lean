import Wasmill.Proofs.Generator.Defining
import Wasmill.Proofs.Generator.Inert

/-! Finishing a module.

Once all functions are placed, the stubs follow, the last pass settles all calls, and the links are
listed. `Finished` says what a generator shows that was finished without having been given up
before. -/
namespace Wasmill
open Code Steps List Layout

namespace Generator
variable {whole : Prop} {g g' g'' : Generator} {pieces pieces' pieces'' : List Piece}
  {filled filled' filled'' : Nat → Option Nat}
  {given given' : List (Nat × Nat)} {p : Piece} {x i : Nat}

/-- As long as no stub is placed, finishing can begin. -/
def CanFinish (g : Generator) (pieces : List Piece) : Prop := Unstubbed pieces → g.Open pieces

/-- A generator that no task waits for, however far it got. -/
def Idle (g : Generator) : Prop :=
  ∃ pieces filled, Consistent False g [] pieces filled ∧ CanFinish g pieces

theorem CanFinish.of_stubbed (stubbed : ¬ Unstubbed pieces) : CanFinish g pieces :=
  fun none' => absurd none' stubbed

theorem stubbed_of_mem (mem : p ∈ pieces) (stub : p.kind.isStub) : ¬ Unstubbed pieces := by
  intro none'
  rcases none' p mem with some' | ⟨callee, rfl⟩
  · cases is : p.kind <;> simp [is, Piece.func?, RangeKind.isStub] at some' stub
  · cases stub

/-- What placing stubs changes. The generic exits among them are given: where each starts, and for
which import. -/
structure Stubs (whole : Prop) (g : Generator) (pieces : List Piece) (given : List (Nat × Nat))
    (g' : Generator)
    (pieces' : List Piece) (filled' : Nat → Option Nat) : Prop where
  kept : Consistent whole g' [] pieces' filled'
  fresh : CanFinish g' pieces'
  onto : pieces <+: pieces'
  bodiless : placedFuncs pieces' = placedFuncs pieces
  unlinked : Unlinked g.layout pieces → Unlinked g'.layout pieces'
  exits : ∀ s p index, (s, p) ∈ sited 0 pieces' → p.kind = .interpExit index →
    (s, p) ∈ sited 0 pieces ∨ (s, index) ∈ given

theorem Stubs.refl (h : Consistent whole g [] pieces filled) (fresh : CanFinish g pieces) :
    Stubs whole g pieces [] g pieces filled :=
  ⟨h, fresh, prefix_rfl, rfl, id, fun _ _ _ mem _ => .inl mem⟩

theorem Stubs.trans (one : Stubs whole g pieces given g' pieces' filled')
    (two : Stubs whole g' pieces' given' g'' pieces'' filled'') :
    Stubs whole g pieces (given ++ given') g'' pieces'' filled'' := by
  refine ⟨two.kept, two.fresh, one.onto.trans two.onto, two.bodiless.trans one.bodiless,
    two.unlinked ∘ one.unlinked, ?_⟩
  intro s p index mem is
  rcases two.exits s p index mem is with mem | mem
  · exact (one.exits s p index mem is).imp_right (mem_append_left _)
  · exact .inr (mem_append_right _ mem)

theorem Stubs.sited (h : Stubs whole g pieces given g' pieces' filled') {s : Nat}
    (mem : (s, p) ∈ sited 0 pieces) :
    (s, p) ∈ Code.sited 0 pieces' := by
  obtain ⟨new, rfl⟩ := h.onto
  rw [sited_append]
  exact mem_append_left _ mem

theorem no_exits_far {fars : List Piece} (far : ∀ p ∈ fars, ∃ callee, p = Piece.far callee) :
    ∀ p ∈ fars, ∀ index, p.kind ≠ .interpExit index := by
  rintro p mem index is
  obtain ⟨callee, rfl⟩ := far p mem
  cases is

def givenBy (start : Nat) : RangeKind → List (Nat × Nat)
  | .interpExit index => [(start, index)]
  | _ => []

section
variable (h : Consistent whole g [] pieces filled) (fresh : CanFinish g pieces)
  (unfinished : g.stubs = none)
include h fresh unfinished

/-- Placing code failed. -/
theorem Consistent.idle {layout : Layout} (stops : Sound.Stops g.layout pieces layout) :
    Idle { g with layout } := by
  obtain ⟨fars, filled', reserves, sound⟩ := stops
  refine ⟨pieces ++ fars, filled', h.stop reserves sound unfinished, fun bare => ?_⟩
  have opened := fresh fun p mem => bare p (mem_append_left _ mem)
  exact ⟨bare, reserves.unlinked opened.unlinked, opened.exits, opened.stubs⟩

/-- Placing one stub. -/
theorem Consistent.stub {kind : RangeKind} (lines : List Line) (stub : kind.isStub)
    (origin : ∀ s, Origin g.log s ⟨kind, lines⟩) :
    Leads (Gen.onLayout (.append (Chunk.ofLines lines) kind)) g
      (fun start g' => ∃ layout pieces' filled',
        g' = { g with layout } ∧ layout.entries = g.layout.entries ∧
        Stubs whole g pieces (givenBy start kind) { g with layout } pieces' filled' ∧
          (start, ⟨kind, lines⟩) ∈ sited 0 pieces')
      (fun _ => Idle) := by
  rw [Gen.leads_onLayout]
  refine (h.sound.append kind (Chunk.ofLines_madeOf lines) ((origin 0).plain stub)
    (by rintro callee rfl; cases stub)).imp ?_
    fun _ _ => h.idle fresh unfinished
  rintro start layout ⟨fars, filled', rfl, appends⟩
  obtain ⟨placed, none'⟩ :
      kind.placed (extent (linesOf (pieces ++ fars))) (Chunk.ofLines lines).entry = kind ∧
      (⟨kind, lines⟩ : Piece).func? = none := by
    cases kind with
    | function func bytecode entry => cases stub
    | _ => exact ⟨rfl, rfl⟩
  rw [placed] at appends
  have new : placedFuncs (fars ++ [⟨kind, lines⟩]) = [] := by
    rw [placedFuncs_append, placedFuncs_far appends.far, placedFuncs, filterMap_cons, none']
    rfl
  have sited_new : ∀ {s p start}, (s, p) ∈ sited start (fars ++ [⟨kind, lines⟩]) →
      (s, p) ∈ sited start fars ∨ s = start + extent (linesOf fars) ∧ p = ⟨kind, lines⟩ := by
    intro s p start mem
    rw [sited_append] at mem
    exact (mem_append.1 mem).imp_right fun mem => Prod.mk.inj (mem_singleton.1 mem)
  have sound := appends.sound
  have unlinked := appends.unlinked
  rw [append_assoc] at sound unlinked
  refine ⟨layout, _, filled', rfl, appends.entries,
    ⟨h.onLayout sound appends.reach ?_ new (fun func _ =>
    entry?_congr appends.entries func) unfinished, .of_stubbed (stubbed_of_mem (p := ⟨kind, lines⟩)
      (by simp) stub),
    prefix_append .., by rw [placedFuncs_append, new, append_nil], unlinked, ?_⟩, ?_⟩
  · intro s p mem
    rcases sited_new mem with mem | ⟨_, rfl⟩
    · exact .fars appends.far mem
    · exact origin s
  · intro s p index mem is
    rw [sited_append] at mem
    refine (mem_append.1 mem).imp_right fun mem => ?_
    rcases sited_new mem with mem | ⟨rfl, rfl⟩
    · exact absurd is (no_exits_far appends.far p (mem_of_sited mem) index)
    · cases is
      simp [givenBy]
  · rw [← append_assoc, sited_append, Nat.zero_add]
    exact mem_append_right _ (mem_singleton.2 rfl)

/-! ### Entry stubs -/

/-- The entry stub of an export is placed where the export says. -/
def Exported (g : Generator) (pieces : List Piece) (index : Nat) (e : Export) : Prop :=
  (e.entry, ⟨.entry index, Chunk.entryLines e.func (g.env.sigs.getD e.sig ⟨[], none⟩)⟩) ∈
    sited 0 pieces

theorem Consistent.entryStubs {xs : List (Nat × Export)}
    (from' : ∀ index e, (index, e) ∈ xs → ∃ e',
      g.exports.funcs[index]? = some e' ∧ e'.func = e.func ∧ e'.sig = e.sig) :
    Leads (Gen.entryStubs xs) g (fun _ g' => ∃ layout exports pieces' filled',
      g' = { g with layout, exports } ∧
        Stubs whole g pieces [] { g with layout, exports } pieces' filled' ∧
        ∀ index e, exports.funcs[index]? = some e → ∃ e', g.exports.funcs[index]? = some e' ∧
          e'.func = e.func ∧
          e'.sig = e.sig ∧
            (Exported g pieces' index e ∨ index ∉ xs.map Prod.fst ∧ e' = e)) (fun _ => Idle) := by
  induction xs generalizing g pieces filled with
  | nil =>
    unfold Gen.entryStubs
    rw [leads_pure]
    exact ⟨_, _, pieces, filled, rfl, .refl h fresh,
      fun index e is => ⟨e, is, rfl, rfl, .inr ⟨by simp, rfl⟩⟩⟩
  | cons x xs ih =>
    obtain ⟨index, e⟩ := x
    unfold Gen.entryStubs
    rw [leads_bind, leads_get]
    refine (h.stub fresh unfinished (Chunk.entryLines e.func (g.env.sigs.getD e.sig ⟨[], none⟩)) rfl
      fun _ => .entry).bind ?_
    rintro start _ ⟨layout, pieces₁, filled₁, rfl, -, stubs₁, there⟩
    rw [leads_bind, leads_modify]
    have stubs₂ : Stubs whole g pieces [] { g with
        layout, exports.funcs := g.exports.funcs.modify index fun e =>
          { e with entry := start } } pieces₁ filled₁ :=
      { stubs₁ with kept := { stubs₁.kept with }, fresh := fun bare => { stubs₁.fresh bare with } }
    have get : ∀ i, (g.exports.funcs.modify index fun e => { e with entry := start })[i]? =
        if index = i then g.exports.funcs[i]?.map fun e =>
          { e with entry := start } else g.exports.funcs[i]? :=
      fun i => Array.getElem?_modify
    refine (ih stubs₂.kept stubs₂.fresh unfinished fun i e' mem => ?_).imp ?_ (fun _ _ h => h)
    · obtain ⟨e'', is, func, sig⟩ := from' i e' (mem_cons_of_mem _ mem)
      dsimp only
      rw [get, is]
      split
      · exact ⟨_, rfl, func, sig⟩
      · exact ⟨_, rfl, func, sig⟩
    rintro _ _ ⟨layout', exports, pieces', filled', rfl, stubs₃, done⟩
    refine ⟨layout', exports, pieces', filled', rfl, stubs₂.trans stubs₃, ?_⟩
    intro i e₃ is₃
    obtain ⟨e₂, is₂, func, sig, placed⟩ := done i e₃ is₃
    dsimp only at is₂
    rw [get] at is₂
    split at is₂
    · rename_i head
      subst head
      obtain ⟨e₁, is₁, rfl⟩ := Option.map_eq_some_iff.1 is₂
      refine ⟨e₁, is₁, func, sig, .inl (placed.elim id ?_)⟩
      rintro ⟨_, rfl⟩
      obtain ⟨e', is', func', sig'⟩ := from' index e mem_cons_self
      rw [is₁] at is'
      cases is'
      unfold Exported
      simp only [func', sig']
      exact stubs₃.sited there
    · rename_i tail
      exact ⟨e₂, is₂, func, sig,
        placed.imp_right fun out => ⟨by simpa [Ne.symm tail] using out.1, out.2⟩⟩

/-! ### Exits -/

/-- Both exits of an import are placed, and calls of it enter at the generic one. -/
def Exits (g : Generator) (pieces : List Piece) (index : Nat) (desc : FuncImport) : Prop :=
  ∃ interp jit, g.importExits[index]? = some (interp, jit) ∧ g.layout.entry? index = some interp ∧
    (interp, ⟨.interpExit index, Chunk.interpLines index (g.env.sigs.getD desc.sig ⟨[], none⟩)⟩) ∈
      sited 0 pieces ∧
    (jit, ⟨.jitExit index, Chunk.jitLines index (g.env.sigs.getD desc.sig ⟨[], none⟩)⟩) ∈
      sited 0 pieces

/-- Generic exits were there before, or are those that imports are given. -/
def NewExits (g' : Generator) (pieces pieces' : List Piece) : Prop :=
  ∀ s p index, (s, p) ∈ sited 0 pieces' → p.kind = .interpExit index →
    (s, p) ∈ sited 0 pieces ∨ ∃ jit, g'.importExits[index]? = some (s, jit)

/-- The exits of imports were added, in the order of the imports. -/
structure ExitsAdded (g g' : Generator) (pieces' : List Piece) (given : List (Nat × Nat))
    (xs : List (Nat × FuncImport)) :
    Prop where
  only : ∀ s index, (s, index) ∈ given → ∃ jit, g'.importExits[index]? = some (s, jit)
  size : g'.importExits.size = g.importExits.size + xs.length
  old : ∀ i, i < g.importExits.size → g'.importExits[i]? = g.importExits[i]?
  added : ∀ index desc, (index, desc) ∈ xs → Exits g' pieces' index desc

theorem Consistent.importExits {xs : List (Nat × FuncImport)}
    (imported : ∀ x ∈ xs, g.env.isDefined x.1 = false) :
    Leads (Gen.importExits xs) g (fun _ g' => ∃ layout importExits pieces' filled' given,
      g' = { g with layout, importExits } ∧
        Stubs whole g pieces given { g with layout, importExits } pieces' filled' ∧
        (∀ func, func ∉ xs.map Prod.fst → layout.entry? func = g.layout.entry? func) ∧
        ((∀ j x, xs[j]? = some x → x.1 = g.importExits.size + j) →
          ExitsAdded g { g with layout, importExits } pieces' given xs))
      (fun _ => Idle) := by
  induction xs generalizing g pieces filled with
  | nil =>
    unfold Gen.importExits
    rw [leads_pure]
    exact ⟨_, _, pieces, filled, [], rfl, .refl h fresh, fun _ _ => rfl,
      fun _ => ⟨by simp, rfl, fun _ _ => rfl, by simp⟩⟩
  | cons x xs ih =>
    obtain ⟨index, desc⟩ := x
    unfold Gen.importExits
    rw [leads_bind, leads_get]
    generalize sig_is : g.env.sigs.getD desc.sig ⟨[], none⟩ = sig
    refine (h.stub fresh unfinished (Chunk.interpLines index sig) rfl fun _ => .interpExit).bind ?_
    rintro interp _ ⟨layout₁, pieces₁, filled₁, rfl, entries₁, stubs₁, there₁⟩
    refine (stubs₁.kept.stub stubs₁.fresh unfinished (Chunk.jitLines index sig) rfl fun _ =>
      .jitExit).bind ?_
    rintro jit _ ⟨layout₂, pieces₂, filled₂, rfl, entries₂, stubs₂, there₂⟩
    have stubs := stubs₁.trans stubs₂
    have there₁ := stubs₂.sited there₁
    rw [leads_bind, leads_modify]
    have entry₃ : ∀ func, Layout.entry? (layout₂.setEntry index interp) func = if func =
        index then some interp else g.layout.entry? func := by
      intro func
      rw [Laid.setEntry_entries, entry?_congr (entries₂.trans entries₁)]
    have enters : Enters pieces₂ index interp := ⟨interp, _, there₁, .inr ⟨rfl, rfl⟩⟩
    have stubs₃ : Stubs whole g pieces [(interp, index)]
        { g with layout := layout₂.setEntry index interp, importExits :=
          g.importExits.push (interp, jit) } pieces₂ filled₂ := by
      refine { stubs with
        kept := ?_, fresh := .of_stubbed (stubbed_of_mem (mem_of_sited there₁) rfl), unlinked :=
          fun u => { stubs.unlinked u with } }
      have sound : Sound whole (layout₂.setEntry index interp) (pieces₂ ++ []) filled₂ := by
        rw [append_nil]
        exact stubs.kept.sound.setEntry enters
      have changed := stubs.kept.onLayout sound rfl (by simp) rfl (fun func isDefined => by
        rw [Laid.setEntry_entries, if_neg]
        rintro rfl
        rw [imported (func, desc) mem_cons_self] at isDefined
        cases isDefined) unfinished
      rw [append_nil] at changed
      exact { changed with }
    refine (ih stubs₃.kept stubs₃.fresh unfinished fun x mem =>
      imported x (mem_cons_of_mem _ mem)).imp ?_ (fun _ _ h => h)
    rintro _ _ ⟨layout, importExits, pieces', filled', given, rfl, stubs₄, entry₄, added₄⟩
    refine ⟨layout, importExits, pieces', filled', _, rfl, stubs₃.trans stubs₄, ?_, fun order => ?_⟩
    · intro func out
      simp only [map_cons, mem_cons, not_or] at out
      rw [entry₄ func out.2, entry₃, if_neg out.1]
    have first : index = g.importExits.size := order 0 (index, desc) rfl
    obtain ⟨only, size, old, done⟩ := added₄ fun j x is => by
      rw [order (j + 1) x is, Array.size_push]
      omega
    simp only [Array.size_push] at size old
    have ours : importExits[index]? = some (interp, jit) := by
      rw [old index (by omega), first, Array.getElem?_push_size]
    have unseen : index ∉ xs.map Prod.fst := by
      rintro mem
      obtain ⟨x, mem, is⟩ := mem_map.1 mem
      obtain ⟨j, is'⟩ := getElem?_of_mem mem
      have := order (j + 1) x is'
      omega
    refine ⟨?_, ?_, ?_, ?_⟩
    · intro s i mem
      rcases mem_cons.1 mem with is | mem
      · cases is
        exact ⟨jit, ours⟩
      · exact only s i mem
    · rw [size, length_cons]
      omega
    · intro i lt
      rw [old i (by omega), Array.getElem?_push_lt lt, Array.getElem?_eq_getElem lt]
    · intro i desc' mem
      rcases mem_cons.1 mem with is | mem
      · cases is
        refine ⟨interp, jit, ours, (entry₄ index unseen).trans (by rw [entry₃, if_pos rfl]), ?_⟩
        dsimp only
        rw [sig_is]
        exact ⟨stubs₄.sited there₁, stubs₄.sited there₂⟩
      · exact done i desc' mem

/-! ### Shared stubs -/

/-- The shared targets lie where the offsets say. -/
structure Shared (pieces : List Piece) (stubs : StubOffsets) : Prop where
  outOfBounds : (stubs.outOfBounds, ⟨.inline, Chunk.trapLines .memoryOutOfBounds⟩) ∈ sited 0 pieces
  interrupt : (stubs.interrupt, ⟨.inline, Chunk.trapLines .interrupted⟩) ∈ sited 0 pieces
  stackOverflow : (stubs.stackOverflow, ⟨.inline, Chunk.trapLines .stackOverflow⟩) ∈ sited 0 pieces
  throw : (stubs.throw, ⟨.errorExit, Chunk.throwLines⟩) ∈ sited 0 pieces

theorem Consistent.sharedStubs : Leads Gen.sharedStubs g
      (fun stubs g' => ∃ layout pieces' filled',
        g' = { g with layout } ∧ layout.entries = g.layout.entries ∧
        Stubs whole g pieces [] { g with layout } pieces' filled' ∧
          Shared pieces' stubs) (fun _ => Idle) := by
  unfold Gen.sharedStubs
  refine (h.stub fresh unfinished (Chunk.trapLines .memoryOutOfBounds) rfl fun _ => .trap).bind ?_
  rintro outOfBounds _ ⟨layout₁, pieces₁, filled₁, rfl, entries₁, stubs₁, there₁⟩
  refine (stubs₁.kept.stub stubs₁.fresh unfinished (Chunk.trapLines .interrupted) rfl fun _ =>
    .trap).bind ?_
  rintro interrupt _ ⟨layout₂, pieces₂, filled₂, rfl, entries₂, stubs₂, there₂⟩
  refine (stubs₂.kept.stub stubs₂.fresh unfinished (Chunk.trapLines .stackOverflow) rfl fun _ =>
    .trap).bind ?_
  rintro stackOverflow _ ⟨layout₃, pieces₃, filled₃, rfl, entries₃, stubs₃, there₃⟩
  refine (stubs₃.kept.stub stubs₃.fresh unfinished Chunk.throwLines rfl fun _ => .throw).bind ?_
  rintro throw _ ⟨layout₄, pieces₄, filled₄, rfl, entries₄, stubs₄, there₄⟩
  rw [leads_pure]
  refine ⟨layout₄, pieces₄, filled₄, rfl, ?_, ((stubs₁.trans stubs₂).trans stubs₃).trans stubs₄, ?_⟩
  · rw [entries₄, entries₃, entries₂, entries₁]
  · exact ⟨((stubs₂.trans stubs₃).trans stubs₄).sited there₁, (stubs₃.trans stubs₄).sited there₂,
      stubs₄.sited there₃, there₄⟩

/-! ### Links -/

/-- The last pass. -/
theorem Consistent.lastPass : Leads (Gen.onLayout .thunkPass) g
      (fun _ g' => ∃ layout pieces' filled',
        g' = { g with layout } ∧ layout.entries = g.layout.entries ∧
        Stubs whole g pieces [] { g with layout } pieces' filled' ∧ layout.pendingCalls = #[] ∧
        layout.code.size < UInt32.size) (fun _ => Idle) := by
  rw [Gen.leads_onLayout]
  refine h.sound.thunkPass.imp ?_ fun _ _ => h.idle fresh unfinished
  rintro _ layout ⟨fars, filled', reserves, sound, none', -, small⟩
  have entries : layout.entries = g.layout.entries := by rw [reserves.same]
  have unlinked : Unlinked g.layout pieces → Unlinked layout (pieces ++ fars) := reserves.unlinked
  refine ⟨layout, pieces ++ fars, filled', rfl, entries,
    ⟨?_, fun bare => ?_, prefix_append .., ?_, unlinked, ?_⟩, none', small⟩
  · exact h.onLayout sound (by rw [reserves.same]) (fun s p => .fars reserves.far)
      (placedFuncs_far reserves.far)
      (fun func _ => entry?_congr entries func) unfinished
  · have opened := fresh fun p mem => bare p (mem_append_left _ mem)
    exact ⟨bare, unlinked opened.unlinked, opened.exits, opened.stubs⟩
  · rw [placedFuncs_append, placedFuncs_far reserves.far, append_nil]
  · intro s p index mem is
    rw [sited_append] at mem
    refine (mem_append.1 mem).imp_right fun mem => ?_
    exact absurd is (no_exits_far reserves.far p (mem_of_sited mem) index)

end

section
variable (h : Consistent whole g [] pieces filled)
include h

/-- A layout with other links. -/
theorem Consistent.relink (internal : Array InternalLink) (funcPtrs : Array FuncPtrTable)
    (pendingStubs : Array (Nat × StubKind)) (thunkTargets : Array (Nat × Nat)) :
    Consistent whole { g with layout := { g.layout with
      link := { g.layout.link with internal, funcPtrs }, pendingStubs, thunkTargets } }
      [] pieces filled :=
  { h with sound := h.sound.relink internal funcPtrs pendingStubs thunkTargets }

/-- Far jumps are linked to the entries of their functions, as long as these are placed. -/
theorem Consistent.linkThunks {xs : List (Nat × Nat)} (stubbed : ¬ Unstubbed pieces) :
    Leads (Gen.linkThunks xs) g
      (fun _ g' => ∃ internal,
        g' = { g with layout := { g.layout with link := { g.layout.link with internal } } } ∧
        Consistent whole g' [] pieces filled ∧ (∀ x ∈ xs, (g.layout.entry? x.2).isSome) ∧
        internal.toList = g.layout.link.internal.toList ++ xs.filterMap g.layout.farLink?)
      (fun _ => Idle) := by
  induction xs generalizing g with
  | nil =>
    unfold Gen.linkThunks
    rw [leads_pure]
    exact ⟨g.layout.link.internal, rfl, h, by simp, by simp⟩
  | cons x xs ih =>
    obtain ⟨place, func⟩ := x
    unfold Gen.linkThunks
    rw [leads_bind, leads_get]
    cases is : g.layout.entry? func with
    | none =>
      rw [Gen.leads_fail]
      exact ⟨pieces, filled, h.broken, .of_stubbed stubbed⟩
    | some entry =>
      show Leads (Gen.addLink place entry >>= fun _ => Gen.linkThunks xs) g _ _
      unfold Gen.addLink
      rw [leads_bind, leads_modify]
      refine (ih (h.relink (g.layout.link.internal.push ⟨place, entry⟩) g.layout.link.funcPtrs
        g.layout.pendingStubs g.layout.thunkTargets)).imp ?_ (fun _ _ h => h)
      rintro _ g' ⟨internal, rfl, kept, placed, all⟩
      refine ⟨internal, rfl, kept, ?_, ?_⟩
      · intro x there
        rcases mem_cons.1 there with rfl | there
        · rw [is]
          rfl
        · exact placed x there
      · have first : g.layout.farLink? (place, func) = some ⟨place, entry⟩ := by
          rw [Layout.farLink?, is]
          rfl
        rw [all, Array.toList_push, append_assoc, filterMap_cons_some first]
        rfl

/-- The entries of the functions of a segment are those that calls would enter. -/
def ElemsLinked (g : Generator) (segment : ElemSegment) (ptrs : FuncPtrTable) : Prop :=
  ptrs = { table := segment.table, handle :=
    (g.env.tables[segment.table]?.map (·.handle)).getD 0, entries := ptrs.entries } ∧
    Gen.elemEntries g.layout segment.funcs.toList = .ok ptrs.entries.toList

theorem Consistent.linkElems {xs : List ElemSegment} (stubbed : ¬ Unstubbed pieces) :
    Leads (Gen.linkElems xs) g
      (fun _ g' => ∃ funcPtrs,
        g' = { g with layout := { g.layout with link := { g.layout.link with funcPtrs } } } ∧
        Consistent whole g' [] pieces filled ∧
        ∃ new : List FuncPtrTable, funcPtrs.toList = g.layout.link.funcPtrs.toList ++ new ∧
          ∀ (j : Nat) segment ptrs, xs[j]? = some segment → new[j]? = some ptrs →
            ElemsLinked g segment ptrs)
      (fun _ => Idle) := by
  induction xs generalizing g with
  | nil =>
    unfold Gen.linkElems
    rw [leads_pure]
    exact ⟨g.layout.link.funcPtrs, rfl, h, [], by simp, by simp⟩
  | cons segment xs ih =>
    unfold Gen.linkElems
    rw [leads_bind, leads_get, leads_bind, leads_lift]
    cases is : Gen.elemEntries g.layout segment.funcs.toList with
    | error e => exact ⟨pieces, filled, h.broken, .of_stubbed stubbed⟩
    | ok entries =>
      show Leads (modify _ >>= fun _ => Gen.linkElems xs) g _ _
      rw [leads_bind, leads_modify]
      generalize ptrs_is : (⟨segment.table, (g.env.tables[segment.table]?.map (·.handle)).getD 0,
        entries.toArray⟩ :
        FuncPtrTable) = ptrs
      refine (ih
        (h.relink g.layout.link.internal (g.layout.link.funcPtrs.push ptrs) g.layout.pendingStubs
        g.layout.thunkTargets)).imp ?_ (fun _ _ h => h)
      rintro _ g' ⟨funcPtrs, rfl, kept, new, all, linked⟩
      refine ⟨funcPtrs, rfl, kept, ptrs :: new, by rw [all, Array.toList_push]; simp, ?_⟩
      intro j segment' ptrs' there there'
      cases j with
      | zero =>
        cases there
        cases there'
        rw [← ptrs_is]
        exact ⟨rfl, is⟩
      | succ j => exact linked j segment' ptrs' there there'

end

/-! ### The whole -/

/-- What a generator shows once its module is finished. -/
structure Finished (g : Generator) (pieces : List Piece) (filled : Nat → Option Nat)
    (stubs : StubOffsets) : Prop where
  kept : Consistent True g [] pieces filled
  idle : g.waiting = []
  frozen : g.frozen = true
  done : g.stubs = some stubs
  called : g.layout.pendingCalls = #[]
  links : Links g.layout pieces stubs
  shared : Shared pieces stubs
  defined : ∀ func, g.env.isDefined func → func ∈ g.defined
  exported : ∀ (index : Nat) e, g.exports.funcs[index]? = some e → Exported g pieces index e
  exits : ∀ (index : Nat) desc, g.env.funcImports[index]? = some desc → Exits g pieces index desc
  exitCount : g.importExits.size = g.env.funcImports.size
  exitsOnly : NewExits g [] pieces
  elems : ∀ (j : Nat) segment ptrs, g.elems[j]? = some segment →
    g.layout.link.funcPtrs[j]? = some ptrs →
    ElemsLinked g segment ptrs

/-- What is left without repetitions was there before, and nothing else is gone if only equal
elements are taken as such. -/
theorem mem_eraseRepsBy {α : Type} {same : α → α → Bool} {xs : List α} {x : α} :
    (x ∈ xs.eraseRepsBy same → x ∈ xs) ∧
      ((∀ a b, same a b → a = b) → x ∈ xs → x ∈ xs.eraseRepsBy same) := by
  have loop :
      ∀ (xs acc : List α) (a : α), (x ∈ eraseRepsBy.loop same a xs acc → x = a ∨ x ∈ xs ∨ x ∈ acc) ∧
      ((∀ a b, same a b → a = b) → x = a ∨ x ∈ xs ∨ x ∈ acc →
        x ∈ eraseRepsBy.loop same a xs acc) := by
    intro xs
    induction xs with
    | nil => intro acc a; simp [eraseRepsBy.loop, or_comm]
    | cons b xs ih =>
      intro acc a
      rw [eraseRepsBy.loop]
      have skipped := ih acc a
      have kept := ih (a :: acc) b
      split <;> grind
  cases xs with
  | nil => exact ⟨id, fun _ => id⟩
  | cons a xs => simpa [eraseRepsBy] using loop xs [] a

theorem mem_sortedOnce {xs : Array Nat} : x ∈ Gen.sortedOnce xs ↔ x ∈ xs := by
  unfold Gen.sortedOnce
  have once (xs : List Nat) : x ∈ xs.eraseReps ↔ x ∈ xs :=
    ⟨mem_eraseRepsBy.1, mem_eraseRepsBy.2 (by simp)⟩
  rw [mem_toArray, once, mem_mergeSort, Array.mem_toList_iff]

/-- The last step of finishing. -/
theorem Consistent.sortSigs (h : Consistent whole g [] pieces filled) (stubs : StubOffsets)
    (frozen : g.frozen = true)
    (small : g.layout.code.size < UInt32.size)
    (bodies : ∀ func, g.env.isDefined func → func ∈ g.defined) :
    Consistent whole { g with
      layout.indirectSigs := Gen.sortedOnce g.layout.indirectSigs, stubs := some stubs }
      [] pieces filled :=
  { h with
    sound :=
      ⟨{ h.sound.laid with indirectSigs := fun sig =>
        mem_sortedOnce.trans (h.sound.laid.indirectSigs sig) },
      { h.sound.budget with }, h.sound.calls⟩
    early := fun unfrozen => Bool.noConfusion (frozen.symm.trans unfrozen)
    closed := fun _ => ⟨small, rfl, bodies⟩ }

theorem mem_indexed {α : Type} {xs : Array α} {x : α} :
    (i, x) ∈ Gen.indexed xs ↔ xs[i]? = some x := by
  unfold Gen.indexed
  rw [mem_mapIdx]
  constructor
  · rintro ⟨j, lt, is⟩
    cases is
    simp
  · intro is
    obtain ⟨lt, is⟩ := Array.getElem?_eq_some_iff.1 is
    exact ⟨i, by simpa using lt, by simp [is]⟩

theorem leads_checkBodies {Q : PUnit → Generator → Prop} {E : Error → Generator → Prop}
    (ok : (∀ func, g.env.isDefined func → func ∈ g.defined) → Q ⟨⟩ g) (bad : ∀ e, E e g) :
    Leads Gen.checkBodies g Q E := by
  unfold Gen.checkBodies
  rw [leads_bind, leads_get]
  split
  · rw [Gen.leads_fail]
    exact bad _
  · rename_i none'
    rw [leads_pure]
    refine ok fun func isDefined => ?_
    rw [find?_eq_none] at none'
    have lt : func < g.env.funcs.size := by
      unfold Env.isDefined at isDefined
      simp only [Bool.and_eq_true, decide_eq_true_eq] at isDefined
      exact isDefined.2
    have := none' func (mem_range.2 lt)
    simpa [isDefined] using this

/-- Every hole that has to be linked is listed, once the stubs and the far jumps are. -/
theorem links_listed {l l' : Layout} {stubs : StubOffsets} (unlinked : Unlinked l pieces)
    (entries : ∀ func, l'.entry? func = l.entry? func)
    (placed : ∀ x ∈ l.thunkTargets.toList, (l.entry? x.2).isSome)
    (internal : l'.link.internal.toList =
      (l.link.internal ++ l.pendingStubs.map fun (patchAt, kind) =>
        (⟨patchAt, stubs.get kind⟩ : InternalLink)).toList ++
        l.thunkTargets.toList.filterMap l.farLink?) : Links l' pieces stubs := by
  refine ⟨?_, fun callee s far => ?_⟩
  · have same : l'.farLink? = l.farLink? := by
      funext ⟨place, callee⟩
      rw [Layout.farLink?, Layout.farLink?, entries]
    rw [internal, unlinked.internal, Array.empty_append, Array.toList_map, unlinked.stubs,
      unlinked.fars, same]
  · rw [entries]
    refine placed (s + Chunk.firstOperand, callee) ?_
    rw [unlinked.fars]
    exact mem_filterMap.2 ⟨(s, Piece.far callee), far, rfl⟩

theorem Unstubbed.no_exits (none' : Unstubbed pieces) :
    ∀ s p index, (s, p) ∈ sited 0 pieces → p.kind ≠ .interpExit index := by
  intro s p index mem is
  rcases none' p (mem_of_sited mem) with some' | ⟨callee, rfl⟩
  · simp [Piece.func?, is] at some'
  · cases is

theorem isDefined_import (env : Env) (lt : i < env.funcImports.size) : env.isDefined i = false := by
  unfold Env.isDefined Env.importedFuncs
  simp only [Bool.and_eq_false_imp, decide_eq_true_eq]
  omega

theorem Consistent.of_idle (h : Consistent whole g [] pieces filled) (idle : g.waiting = []) :
    Consistent whole g g.waiting pieces filled := by
  rw [idle]
  exact h

/-- How finishing ends. -/
theorem Consistent.finishCodegen (h : Consistent whole g g.waiting pieces filled)
    (fresh : CanFinish g pieces) (unfinished : g.stubs = none) :
    Leads Gen.finishCodegen g (fun _ g' => ∃ pieces' filled',
      Consistent whole g' g'.waiting pieces' filled' ∧ ¬ Unstubbed pieces' ∧
        (Complete g g.waiting pieces → Complete g' g'.waiting pieces') ∧
        (whole → Unstubbed pieces → ∃ stubs, Finished g' pieces' filled' stubs))
      (fun _ g' => ∃ pieces' filled', Consistent False g' g'.waiting pieces' filled' ∧ CanFinish g' pieces') := by
  unfold Gen.finishCodegen
  rw [leads_bind, leads_get, unfinished]
  dsimp only
  rw [if_neg nofun, leads_bind, leads_modify]
  generalize frozen_is : ({ g with frozen := true } : Generator) = g₀
  have frozen : g₀.frozen = true := by rw [← frozen_is]
  have waiting₀ : g₀.waiting = g.waiting := by rw [← frozen_is]; rfl
  have kept₀ : Consistent whole g₀ g₀.waiting pieces filled := by
    rw [waiting₀, ← frozen_is]
    exact { h with early := nofun }
  have fresh₀ : CanFinish g₀ pieces := by
    rw [← frozen_is]
    exact fun none' => ⟨none', (fresh none').unlinked, (fresh none').exits, (fresh none').stubs⟩
  have defined₀ : g₀.defined = g.defined := by rw [← frozen_is]
  rw [leads_bind]
  refine kept₀.finishDefs.imp ?_ ?_
  rotate_left
  · rintro _ g₁ ⟨new, filled', merges, none', kept⟩
    refine ⟨pieces ++ new, filled', kept.of_idle none', fun bare => (fresh₀ ?_).merges merges⟩
    exact fun p mem => bare p (mem_append_left _ mem)
  rintro _ g₁ ⟨new₁, filled₁, merges, none', kept₁, complete⟩
  -- from here on only code is made, so no task waits
  have idle {g' : Generator} (made : Made g₁ g') : g'.waiting = [] := by
    rw [Generator.waiting, made.same]
    exact none'
  refine (Respects.and (R := Made) (E := fun _ => True) ?_ (Q := fun _ g' => g'.waiting = [] → _)
    (F := fun _ => Idle) ?_).imp
    (fun _ _ h => h.2 (idle h.1)) ?_
  · refine .seq fun _ => .seq fun _ => .seq fun _ => .seq fun _ => .seq fun _ => .seq fun _ =>
      .seq fun _ => ?_
    exact .seq fun _ => .seq fun _ => .seq fun _ => inferInstance
  rotate_left
  · rintro _ g' ⟨made, pieces', filled', kept, fresh⟩
    exact ⟨pieces', filled', kept.of_idle (idle made), fresh⟩
  have fresh₁ : CanFinish g₁ (pieces ++ new₁) := fun bare =>
    (fresh₀ fun p mem => bare p (mem_append_left _ mem)).merges merges
  have complete : Complete g g.waiting pieces → Complete g₁ [] (pieces ++ new₁) := by
    intro all
    refine complete ?_
    rw [waiting₀]
    unfold Complete
    rw [defined₀]
    exact all
  have unfinished₁ : g₁.stubs = none := by rw [merges.same, ← frozen_is, unfinished]
  generalize at₁ : pieces ++ new₁ = pieces₁ at kept₁ fresh₁ complete
  rw [leads_bind]
  refine leads_checkBodies (fun bodies => ?_) fun _ => ⟨pieces₁, filled₁, kept₁.broken, fresh₁⟩
  rw [leads_bind, leads_get]
  refine (kept₁.entryStubs fresh₁ unfinished₁ fun index e mem =>
    ⟨e, mem_indexed.1 mem, rfl, rfl⟩).bind ?_
  rintro _ _ ⟨layout₂, exports, pieces₂, filled₂, rfl, stubs₂, exported⟩
  rw [leads_bind, leads_get]
  refine (stubs₂.kept.importExits stubs₂.fresh unfinished₁ ?_).bind ?_
  · rintro ⟨i, desc⟩ mem
    exact isDefined_import _ (Array.getElem?_eq_some_iff.1 (mem_indexed.1 mem)).1
  rintro _ _ ⟨layout₃, importExits, pieces₃, filled₃, given, rfl, stubs₃, -, exits⟩
  dsimp only at stubs₃ exits
  refine (stubs₃.kept.sharedStubs stubs₃.fresh unfinished₁).bind ?_
  rintro offsets _ ⟨layout₄, pieces₄, filled₄, rfl, entries₄, stubs₄, shared₄⟩
  dsimp only at entries₄ stubs₄
  refine (stubs₄.kept.lastPass stubs₄.fresh unfinished₁).bind ?_
  rintro _ _ ⟨layout₅, pieces₅, filled₅, rfl, entries₅, stubs₅, called, small₅⟩
  dsimp only at entries₅ stubs₅
  have last := stubs₄.trans stubs₅
  have stubs := stubs₂.trans (stubs₃.trans last)
  have shared₅ : Shared pieces₅ offsets :=
    ⟨stubs₅.sited shared₄.outOfBounds, stubs₅.sited shared₄.interrupt,
    stubs₅.sited shared₄.stackOverflow, stubs₅.sited shared₄.throw⟩
  have stubbed₅ := stubbed_of_mem (mem_of_sited shared₅.throw) rfl
  -- the links of stubs
  unfold Gen.linkStubs
  rw [leads_bind, leads_modify, leads_bind, leads_get, leads_bind, leads_modify]
  have kept₆ := stubs.kept.relink (layout₅.link.internal ++ layout₅.pendingStubs.map fun ref =>
    (⟨ref.1, offsets.get ref.2⟩ : InternalLink)) layout₅.link.funcPtrs #[] #[]
  dsimp only at kept₆
  refine (Consistent.linkThunks kept₆ stubbed₅).bind ?_
  rintro _ _ ⟨internal, rfl, kept₇, placed, listed⟩
  dsimp only at kept₇ placed listed
  rw [leads_bind, leads_get]
  refine (kept₇.linkElems stubbed₅).bind ?_
  rintro _ _ ⟨funcPtrs, rfl, kept₈, new₈, all₈, linked₈⟩
  dsimp only at kept₈ all₈ linked₈
  rw [leads_modify]
  have frozen₁ : g₁.frozen = true := merges.frozen frozen
  have kept₉ := kept₈.sortSigs offsets frozen₁ small₅ bodies
  dsimp only at kept₉ ⊢
  intro waiting₉
  refine ⟨pieces₅, filled₅, kept₉.of_idle waiting₉, stubbed₅, ?_, ?_⟩
  · intro all func mem
    rw [waiting₉, stubs.bodiless]
    exact complete all func mem
  -- nothing was given up before
  intro all bare
  have opened : g₁.Open pieces₁ := by
    rw [← at₁]
    exact (fresh₀ bare).merges merges
  have unlinked := stubs.unlinked opened.unlinked
  have added := exits fun j x is => by
    unfold Gen.indexed at is
    rw [getElem?_mapIdx] at is
    obtain ⟨desc, _, rfl⟩ := Option.map_eq_some_iff.1 is
    simp [opened.exits]
  refine ⟨offsets, ⟨eq_true all ▸ kept₉, waiting₉, frozen₁, rfl, called, ?_, shared₅, bodies, ?_,
    ?_, ?_, ?_, ?_⟩⟩
  · exact links_listed unlinked (fun _ => rfl) placed listed
  · intro index e is
    obtain ⟨e₁, is₁, _, _, there | ⟨out, _⟩⟩ := exported index e is
    · exact (stubs₃.trans last).sited there
    · exact absurd (mem_map.2 ⟨(index, e₁), mem_indexed.2 is₁, rfl⟩) out
  · intro index desc is
    obtain ⟨interp, jit, known, entry, there, there'⟩ := added.added index desc (mem_indexed.2 is)
    refine ⟨interp, jit, known, ?_, last.sited there, last.sited there'⟩
    rw [← entry]
    exact entry?_congr (entries₅.trans entries₄) index
  · rw [added.size]
    simp [Gen.indexed, opened.exits]
  · intro s p index mem is
    rcases stubs.exits s p index mem is with mem | mem
    · exact absurd is (opened.bare.no_exits s p index mem)
    · exact .inr (added.only s index (by simpa using mem))
  · intro j segment table is is'
    rw [← Array.getElem?_toList] at is is'
    dsimp only at is'
    rw [all₈, unlinked.funcPtrs] at is'
    exact linked₈ j segment table is is'

end Generator
end Wasmill

import Wasmill.Proofs.Generator.History

/-! Finished modules are whole.

A module may be finished after requests failed, as long as no failed request placed a stub or lost a
function or a call. Then every function it defines has one body in its code, its start function is
known, and its far jumps are linked. -/
namespace Wasmill
open Code Steps List

/-- Calls of the function enter there: an import at its generic exit, another function in its body.
-/
def Module.Enters (m : Module) (func entry : Nat) : Prop :=
  (∃ i, m.imports[func]? = some i ∧ i.interpExit = entry) ∨
    ∃ r ∈ m.ranges.toList, ∃ bytecode, r.kind = .function func bytecode entry

namespace Generator
variable {g g' : Generator} {pieces : List Piece} {filled : Nat → Option Nat} {stubs : StubOffsets}

/-- Finishing ends with all in order. -/
theorem Orderly.finish (h : Orderly g pieces filled) :
    Leads Gen.finish g
      (fun m g' => ∃ pieces' filled' stubs,
        Grown True g' pieces' filled' ∧ Finished g' pieces' filled' stubs ∧
        m = Gen.module g' stubs ∧ ((∀ func, ¬ g.Lost func) → ∀ func, ¬ g'.Lost func))
      (fun _ _ => True) := by
  unfold Gen.finish
  rw [leads_bind]
  have done :
      ∀ g', (∃ pieces' filled', Grown True g' pieces' filled' ∧
        (Complete g g.waiting pieces → Complete g' g'.waiting pieces') ∧
        Done pieces' filled' g') →
      Leads (do let g ← get; return Gen.module g (g.stubs.getD default) : Gen Module) g'
        (fun m g' => ∃ pieces' filled' stubs,
          Grown True g' pieces' filled' ∧ Finished g' pieces' filled' stubs ∧
          m = Gen.module g' stubs ∧ ((∀ func, ¬ g.Lost func) → ∀ func, ¬ g'.Lost func))
        (fun _ _ => True) := by
    rintro g' ⟨pieces', filled', grown, complete, stubs, finished⟩
    rw [leads_bind, leads_get, leads_pure]
    refine ⟨pieces', filled', stubs, grown, finished, by rw [finished.done]; rfl, fun none' => ?_⟩
    exact grown.complete.1 (complete (h.toGrown.complete.2 none'))
  rcases h.order with opened | finished
  · refine (Respects.and (R := Alike) (E := fun _ => True) inferInstance
      (h.kept.finishCodegen h.fresh opened.stubs)).imp ?_
      fun _ _ _ => trivial
    rintro _ g' ⟨alike, pieces', filled', kept, stubbed, complete, finished⟩
    exact done g' ⟨pieces', filled',
      ⟨kept, .of_stubbed stubbed, by rw [alike.env, alike.start]; exact h.start⟩, complete,
      finished trivial opened.bare⟩
  · obtain ⟨stubs, finished⟩ := finished
    rw [Gen.leads_finishCodegen_done finished.done]
    exact done g ⟨pieces, filled, h.toGrown, id, stubs, finished⟩

section
variable (h : Finished g pieces filled stubs)
include h

theorem Finished.imports {index interp jit : Nat}
    (is : g.importExits[index]? = some (interp, jit)) :
    ∃ i, (Gen.module g stubs).imports[index]? = some i ∧ i.interpExit = interp ∧
      i.jitExit = jit := by
  have lt : index < g.env.funcImports.size := by
    rw [← h.exitCount]
    exact (Array.getElem?_eq_some_iff.1 is).1
  have desc := Array.getElem?_eq_getElem lt
  refine ⟨⟨g.env.funcImports[index].source, g.env.funcImports[index].sig,
    g.env.funcImports[index].record, interp, jit⟩, ?_,
    rfl, rfl⟩
  show ((g.env.funcImports.zip g.importExits).map _)[index]? = _
  have zipped :
      (g.env.funcImports.zip g.importExits)[index]? = some (g.env.funcImports[index], interp, jit) :=
    Array.getElem?_zip_eq_some.2 ⟨desc, is⟩
  rw [Array.getElem?_map, zipped]
  rfl

theorem Finished.enters {func entry : Nat} (enters : Enters pieces func entry) :
    (Gen.module g stubs).Enters func entry := by
  obtain ⟨s, p, there, ⟨bytecode, is⟩ | ⟨is, at'⟩⟩ := enters
  · right
    refine ⟨p.range s, ?_, bytecode, is⟩
    show p.range s ∈ g.layout.ranges.toList
    rw [h.kept.sound.laid.ranges]
    exact mem_map.2 ⟨(s, p), there, rfl⟩
  · left
    rcases h.exitsOnly s p func there is with none' | ⟨jit, known⟩
    · cases none'
    · obtain ⟨i, listed, interp, _⟩ := h.imports known
      exact ⟨i, listed, interp.trans at'.symm⟩

/-- Offsets of a finished module fit. -/
theorem Finished.small : g.layout.code.size < UInt32.size := (h.kept.closed (by rw [h.done]; rfl)).1

theorem Finished.size : g.layout.code.size = extent (linesOf pieces) :=
  h.kept.sound.laid.size h.small

/-- The code of a finished module can be linked. -/
theorem Finished.linked :
    ∃ code filled', (Gen.module g stubs).linked = .ok code ∧
      Linked code g.config.maxBranchRange pieces filled' stubs := by
  have laid := h.kept.sound.laid
  have calls := h.kept.sound.calls (.inl trivial)
  rw [h.called] at laid calls
  obtain ⟨code, filled', linked, all⟩ := laid.link_ok h.links h.small calls
  rw [h.kept.reach] at all
  exact ⟨code, filled', linked, all⟩

end

section
variable {whole : Prop} {waiting : List CompileTask} (h : Consistent whole g waiting pieces filled)
  {func entry : Nat}
include h

/-- Functions and exits begin with a prologue, where they are entered. -/
theorem Consistent.entered_line {s : Nat} {p : Piece} (there : (s, p) ∈ sited 0 pieces)
    (enters : (∃ bytecode, p.kind = .function func bytecode entry) ∨ p.kind = .interpExit func ∧
      entry = s) :
    ∃ line size stub, (entry, line) ∈ located s p.lines ∧ line.instr = .prologue size stub := by
  rcases enters with ⟨bytecode, is⟩ | ⟨is, rfl⟩
  · cases h.origin s p there with
    | @function _ _ f lines logged small lowered =>
      cases is
      obtain ⟨place, lowering⟩ := Lower.lines_ok lowered
      obtain ⟨rest, rfl⟩ := lowering.head
      refine ⟨{ instr := .prologue f.values.size unlinked, traps := some f.srcloc }, _, _, ?_, rfl⟩
      exact mem_cons_of_mem _ mem_cons_self
    | _ => cases is
  · cases h.origin entry p there with
    | interpExit => exact ⟨_, _, _, mem_cons_self, rfl⟩
    | _ => cases is

/-- Functions are entered inside the code. -/
theorem Consistent.enters_lt (enters : Enters pieces func entry) :
    entry < extent (linesOf pieces) := by
  obtain ⟨s, p, there, enters⟩ := enters
  obtain ⟨line, _, _, inside, _⟩ := h.entered_line there enters
  have := (located_le (located_of_sited there inside)).2
  have := line.size_pos
  omega

end

/-- A far jump of linked code leads to the function it is for. -/
theorem Finished.far {code : ByteArray} {filled' : Nat → Option Nat}
    (h : Finished g pieces filled stubs)
    (linked : Linked code g.config.maxBranchRange pieces filled' stubs) {callee s : Nat}
    (far : FarJump pieces callee s) :
    ∃ entry, Fetch.instrAt code s = .ok (.instr (.jumpFar entry), s + thunkSize) ∧
      (Gen.module g stubs).Enters callee entry := by
  obtain ⟨entry, is, enters⟩ := linked.fars callee s far
  have lt : entry < g.layout.code.size := by
    rw [h.size]
    exact h.kept.enters_lt enters
  have small := h.small
  have size : UInt32.size = 4294967296 := rfl
  have whole : word entry = entry := word_of_lt (by omega)
  have holds := linked.code.holds far.there
  have filled : (Line.at { instr := .jumpFar unlinked } s filled') = .jumpFar entry := by
    show Instr.jumpFar ((filled' (s + Chunk.firstOperand)).getD unlinked) = _
    rw [is]
    rfl
  rw [filled] at holds
  have ready : (Instr.jumpFar entry).Ready Linkable := by
    show word entry ≠ unlinked
    rw [whole]
    unfold unlinked
    omega
  have read := instrAt_encode ready (show 5 < UInt32.size by decide) holds
  refine ⟨entry, ?_, h.enters enters⟩
  rw [read]
  show Except.ok (Fetched.instr (.jumpFar (word entry)), _) = _
  rw [whole]
  rfl

theorem count_ranges (pieces : List Piece) (start func : Nat) :
    (((sited start pieces).map fun (s, p) => p.range s).filter (·.func? = some func)).length =
      (placedFuncs pieces).count func := by
  induction pieces generalizing start with
  | nil => rfl
  | cons p pieces ih =>
    have same : (p.range start).func? = p.func? := rfl
    have rest := ih (start + p.size)
    unfold placedFuncs at rest ⊢
    rw [sited_cons, map_cons, filter_cons, filterMap_cons, same]
    cases is : p.func? with
    | none => simpa using rest
    | some func' =>
      rw [count_cons, ← rest]
      by_cases same' : func' = func <;> simp [same']

/-- A declaration that fails changes nothing. -/
theorem declare_failed {d : Declaration} (failed : ((Request.declare d).perform g).1.isOk = false) :
    ((Request.declare d).perform g).2 = g := by
  have ends : Leads (Request.declare d).perform g (fun _ _ => True) (fun _ g' => g' = g) := by
    rw [Request.perform, Gen.leads_declare]
    cases g.declared d with
    | error e => rfl
    | ok g' => trivial
  rcases is : (Request.declare d).perform g with ⟨e | a, g'⟩
  · exact ends.error is
  · rw [is] at failed
    cases failed

/-- Whatever is not a declaration succeeds. -/
def served (g : Generator) : List Request → Bool
  | [] => true
  | r :: rest => (r matches .declare _ || (r.perform g).1.isOk) && served (r.perform g).2 rest

theorem harmless_of_served {history : List Request} (all : served g history) :
    Along Request.Clean g history ∧ Along Request.Lossless g history := by
  induction history generalizing g with
  | nil => exact ⟨trivial, trivial⟩
  | cons r rest ih =>
    obtain ⟨first, all⟩ := Bool.and_eq_true_iff.1 all
    obtain ⟨clean, lossless⟩ := ih all
    have same (failed : (r.perform g).1.isOk = false) : (r.perform g).2 = g := by
      cases r with
      | declare d => exact declare_failed failed
      | _ => simp [failed] at first
    exact ⟨⟨fun failed => .inl (same failed), clean⟩,
      fun failed func lost => by rwa [same failed] at lost, lossless⟩

/-- A module that is finished is whole, unless a request failed before and did harm. -/
theorem finish_whole {config : Config} {history : List Request} {m : Module}
    (clean : Along Request.Clean (new config) history)
    (lossless : Along Request.Lossless (new config) history)
    (finished : Gen.finish ((new config).after history) = (.ok m, g)) :
    (∀ func, m.env.isDefined func = true →
      (m.ranges.toList.filter (·.func? = some func)).length = 1) ∧
    (∀ func, m.start = some func → ∃ entry, m.startEntry = some entry ∧ m.Enters func entry) ∧
    ∃ code, m.linked = .ok code ∧ ∀ r ∈ m.ranges.toList, ∀ callee, r.kind = .callThunk callee →
      ∃ entry, Fetch.instrAt code r.start = .ok (.instr (.jumpFar entry), r.stop) ∧
        m.Enters callee entry := by
  obtain ⟨_, _, orderly⟩ := (orderly_new config).after clean
  have none' := (grown_new True config).after_lossless lossless (by rintro func ⟨mem, _⟩; cases mem)
  obtain ⟨pieces, filled, stubs, grown, done, rfl, none'⟩ := orderly.finish.ok finished
  have complete := grown.complete.2 (none' ‹_›)
  have placed : ∀ func, g.env.isDefined func = true → func ∈ placedFuncs pieces := by
    intro func isDefined
    rcases complete func (done.defined func isDefined) with placed | waits
    · exact placed
    · rw [done.idle] at waits
      cases waits
  refine ⟨?_, ?_, ?_⟩
  · intro func isDefined
    show (List.filter _ g.layout.ranges.toList).length = 1
    rw [done.kept.sound.laid.ranges, count_ranges]
    have once := done.kept.once
    rw [map_nil, append_nil] at once
    rw [once.count, if_pos (placed func isDefined)]
  · intro func is
    have is : g.start = some func := is
    have known : ∃ entry, g.layout.entry? func = some entry := by
      by_cases isDefined : g.env.isDefined func = true
      · obtain ⟨p, mem, body⟩ := mem_filterMap.1 (placed func isDefined)
        unfold Piece.func? at body
        split at body
        · rename_i func' bytecode entry kind
          cases body
          exact ⟨entry, done.kept.entered p mem func bytecode entry kind⟩
        · cases body
      · have lt := grown.start func is
        rw [isDefined_iff] at isDefined
        have lt : func < g.env.funcImports.size := by omega
        obtain ⟨interp, _, _, entry, _⟩ := done.exits func _ (Array.getElem?_eq_getElem lt)
        exact ⟨interp, entry⟩
    obtain ⟨entry, at'⟩ := known
    refine ⟨entry, ?_, done.enters (done.kept.sound.laid.entries func entry at')⟩
    show g.start.bind g.layout.entry? = some entry
    rw [is]
    exact at'
  · obtain ⟨code, filled', linked, all⟩ := done.linked
    refine ⟨code, linked, ?_⟩
    intro r mem callee is
    have mem : r ∈ g.layout.ranges.toList := mem
    rw [done.kept.sound.laid.ranges] at mem
    obtain ⟨⟨s, p⟩, there, rfl⟩ := mem_map.1 mem
    rcases done.kept.sound.laid.sound p (mem_of_sited there) with ⟨callee', rfl⟩ | ⟨near, _⟩
    · cases is
      exact done.far all there
    · exact absurd is (near callee)

/-- Two functions, the first of which calls the second; a third was refused. -/
def callPair : List Request :=
  [.declare (.func 0), .declare (.sig ⟨[], none⟩), .declare (.func 0), .declare (.func 0),
    .declare (.start 0),
    .define 0 ⟨#[0x00, 0x10, 0x01, 0x0b]⟩ 0, .define 1 ⟨#[0x00, 0x0b]⟩ 0]

/-- Where calls reach only 64 bytes, the call needs a far jump. -/
theorem finish_whole_callPair :
    ∃ m g code, Gen.finish ((new { maxBranchRange := 64 }).after callPair) = (.ok m, g) ∧
    (∀ func < 2, (m.ranges.toList.filter (·.func? = some func)).length = 1) ∧
    (∃ entry, m.startEntry = some entry ∧ m.Enters 0 entry) ∧ m.linked = .ok code ∧
    ∃ r ∈ m.ranges.toList, r.kind = .callThunk 1 ∧
      ∃ entry, Fetch.instrAt code r.start = .ok (.instr (.jumpFar entry), r.stop) ∧
        m.Enters 1 entry := by
  have all : served (new { maxBranchRange := 64 }) callPair := by decide +kernel
  obtain ⟨clean, lossless⟩ := harmless_of_served all
  obtain ⟨m, g, is, shown⟩ := finished_of { maxBranchRange := 64 } callPair
    (fun m => m.env.isDefined 0 && m.env.isDefined 1 && m.start == some 0 &&
      m.ranges.toList.any (·.kind = .callThunk 1)) (by decide +kernel)
  simp only [Bool.and_eq_true, beq_iff_eq, any_eq_true, decide_eq_true_eq] at shown
  obtain ⟨⟨⟨first, second⟩, start⟩, r, mem, kind⟩ := shown
  obtain ⟨bodies, entered, code, linked, fars⟩ := finish_whole clean lossless is
  refine ⟨m, g, code, is, fun func lt => ?_, entered 0 start, linked, r, mem, kind,
    fars r mem 1 kind⟩
  match func, lt with
  | 0, _ => exact bodies 0 first
  | 1, _ => exact bodies 1 second

/-- A function whose body was refused. -/
def lostBody : List Request :=
  [.declare (.sig ⟨[], none⟩), .declare (.func 0), .declare (.start 0),
    .define 0 ⟨#[0x00, 0x20, 0x05, 0x0b]⟩ 0]

/-- Losing a function does harm: the module is finished without it. -/
theorem finish_lostBody : ∃ m g, Gen.finish ((new {}).after lostBody) = (.ok m, g) ∧
    m.env.isDefined 0 = true ∧
    m.ranges.toList.filter (·.func? = some 0) = [] ∧ m.start = some 0 ∧ m.startEntry = none := by
  obtain ⟨m, g, is, shown⟩ := finished_of {} lostBody
    (fun m => decide (m.env.isDefined 0 = true ∧ m.ranges.toList.filter (·.func? = some 0) = [] ∧
      m.start = some 0 ∧
      m.startEntry = none)) (by decide +kernel)
  exact ⟨m, g, is, of_decide_eq_true shown⟩

end Generator
end Wasmill

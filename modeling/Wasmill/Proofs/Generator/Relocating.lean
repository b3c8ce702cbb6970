import Wasmill.Proofs.Generator.Calls

/-! Linking is complete.

Unless a request failed before and did harm, linking writes every operand that names a stub, a
symbol or the target of a far jump, each once, and nothing else. -/
namespace Wasmill
open Code Steps List

/-- What a shared target does. -/
def Code.StubKind.instr : StubKind → Instr
  | .outOfBounds => .trapExit .memoryOutOfBounds
  | .interrupt => .trapExit .interrupted
  | .stackOverflow => .trapExit .stackOverflow
  | .throw => .unwind

/-- The operands of an instruction in a piece of that kind are the stub it needs, the symbol for
what it does, or the entry of the function that a far jump is for. -/
def Module.Resolves (m : Module) (kind : RangeKind) : Instr → Prop
  | .prologue _ stub => stub = m.stubs.stackOverflow
  | .checkInterrupt symbol stub => symbol = Symbol.handleInterrupt.number ∧ stub = m.stubs.interrupt
  | .load _ _ _ _ stub | .store _ _ _ _ stub => stub = m.stubs.outOfBounds
  | .memorySize symbol _ => symbol = Symbol.currentMemory.number
  | .memoryGrow symbol _ _ => symbol = Symbol.growMemory.number
  | .exit true symbol _ _ stub => symbol = Symbol.callOptimized.number ∧ stub = m.stubs.throw
  | .exit false symbol index _ stub =>
    stub = m.stubs.throw ∧ ∃ desc, m.env.funcImports[index]? = some desc ∧
      symbol = (Symbol.callImport (m.env.sigs.getD desc.sig ⟨[], none⟩).result).number
  | .jumpFar target => ∃ callee, kind = .callThunk callee ∧ m.Enters callee target
  | _ => True

/-- The symbol of an instruction in the body of a function. -/
def Code.Instr.symbol? : Instr → Option Symbol
  | .checkInterrupt _ _ => some .handleInterrupt
  | .memorySize _ _ => some .currentMemory
  | .memoryGrow _ _ _ => some .growMemory
  | _ => none

theorem Code.Lower.lines_symbol {func : Nat} {f : Ssa.Function} {lines : List Line}
    (lowered : Lower.lines func f = .ok lines)
    {line : Line} (mem : line ∈ lines) : line.symbol = line.instr.symbol? := by
  obtain ⟨place, lowering⟩ := Lower.lines_ok lowered
  refine lowering.forall (P := fun line => line.symbol = line.instr.symbol?) ?_ ?_ ?_ line mem
  · intro line mem
    simp only [head, mem_cons, not_mem_nil, or_false] at mem
    rcases mem with rfl | rfl <;> rfl
  · rintro b _ ⟨inst, result, srcloc⟩ _
    cases inst <;> rfl
  · intro b _ rel line exits
    have ends := blockExit_ok exits
    generalize b.leave = leave at ends
    cases ends <;> rfl

namespace Generator
variable {g : Generator} {pieces : List Piece} {filled filled' : Nat → Option Nat}
  {stubs : StubOffsets} {code : ByteArray}

section
variable (h : Finished g pieces filled stubs)
include h

/-- The generic exits of a finished module call with the symbol for the result of their imports. -/
theorem Finished.interpLines {s index : Nat} {sig : Sig}
    (there : (s, ⟨.interpExit index, Chunk.interpLines index sig⟩) ∈ sited 0 pieces) :
    ∃ desc, g.env.funcImports[index]? = some desc ∧
      sig.result = (g.env.sigs.getD desc.sig ⟨[], none⟩).result := by
  obtain ⟨jit, known⟩ := (h.exitsOnly s _ index there rfl).resolve_left (by simp)
  have lt := (Array.getElem?_eq_some_iff.1 known).1
  rw [h.exitCount] at lt
  obtain ⟨interp, jit', known', _, there', _⟩ := h.exits index _ (Array.getElem?_eq_getElem lt)
  cases known.symm.trans known'
  have same := sited_unique there there' (by simp [Chunk.interpLines, Chunk.exitLines])
    (by simp [Chunk.interpLines, Chunk.exitLines])
  refine ⟨_, Array.getElem?_eq_getElem lt, ?_⟩
  have lines : Chunk.interpLines index sig = Chunk.interpLines index _ := congrArg Piece.lines same
  simp only [Chunk.interpLines, Chunk.exitLines, List.cons.injEq, Line.mk.injEq, Option.some.injEq,
    Symbol.callImport.injEq] at lines
  exact lines.2.1.2.2.2.1

theorem Finished.resolves (linked : Linked code g.config.maxBranchRange pieces filled' stubs)
    {s o : Nat} {p : Piece} {line : Line}
    (there : (s, p) ∈ sited 0 pieces) (inside : (o, line) ∈ located s p.lines) :
    (Gen.module g stubs).Resolves p.kind (line.at o filled') := by
  have mem := located_of_sited there inside
  have stub : ∀ place kind, line.instr.stub? = some (place, kind) →
      filled' (o + place) = some (stubs.get kind) :=
    fun place kind => linked.stubs o line place kind mem
  have symbol : ∀ symbol, line.symbol = some symbol → filled' (o + 1) = some symbol.number :=
    fun symbol => linked.symbols o line symbol mem
  have exit : ∀ {optimized : Bool} {symbol' : Symbol} {index : Nat} {sig : Sig},
      line ∈ Chunk.exitLines optimized symbol' index sig →
        line.at o filled' = .prologue (max sig.params.length 1) stubs.stackOverflow ∨
        line.at o filled' = .exit optimized symbol'.number index sig.params.length stubs.throw ∨
        line.at o filled' = .ret (Chunk.resultSlot sig) := by
    intro optimized symbol' index sig mem
    simp only [Chunk.exitLines, mem_cons, not_mem_nil, or_false] at mem
    unfold Line.at
    rcases mem with rfl | rfl | rfl
    · simp [Instr.fill, stub 5 .stackOverflow rfl, StubOffsets.get]
    · simp [Instr.fill, stub 13 .throw rfl, symbol symbol' rfl, StubOffsets.get]
    · simp [Instr.fill]
  have line' := mem_of_located inside
  cases h.kept.origin s p there with
  | function logged small lowered =>
    have named := Lower.lines_symbol lowered line'
    obtain ⟨place, lowering⟩ := Lower.lines_ok lowered
    have plain := lowering.plain line line'
    unfold Line.at
    cases is : line.instr with
    | prologue frameSize old => simp [Module.Resolves, Instr.fill,
      stub 5 .stackOverflow (by rw [is]; rfl), StubOffsets.get, Gen.module]
    | checkInterrupt old old' =>
      simp [Module.Resolves, Instr.fill, stub 5 .interrupt (by rw [is]; rfl),
        symbol .handleInterrupt (by rw [named, is]; rfl),
        StubOffsets.get, Gen.module]
    | load kind dst addr offset old | store kind addr src offset old =>
      simp [Module.Resolves, Instr.fill, stub 14 .outOfBounds (by rw [is]; rfl),
        StubOffsets.get, Gen.module]
    | memorySize old dst =>
      simp [Module.Resolves, Instr.fill, symbol .currentMemory (by rw [named, is]; rfl)]
    | memoryGrow old dst delta =>
      simp [Module.Resolves, Instr.fill, symbol .growMemory (by rw [named, is]; rfl)]
    | exit optimized old index nargs old' =>
      have has := plain.symbol
      rw [named, is] at has
      cases has
    | jumpFar target =>
      have near := plain.near
      rw [is] at near
      cases near
    | _ => trivial
  | entry =>
    simp only [Chunk.entryLines, mem_cons, not_mem_nil, or_false] at line'
    rcases line' with rfl | rfl | rfl <;> trivial
  | interpExit =>
    rcases exit line' with is | is | is <;> rw [is]
    · rfl
    · obtain ⟨desc, known, same⟩ := h.interpLines there
      exact ⟨rfl, desc, known, by rw [same]; rfl⟩
    · trivial
  | jitExit =>
    rcases exit line' with is | is | is <;> rw [is]
    · rfl
    · exact ⟨rfl, rfl⟩
    · trivial
  | trap | throw =>
    cases mem_singleton.1 line'
    trivial
  | @far callee =>
    cases mem_singleton.1 inside
    obtain ⟨entry, is, enters⟩ := linked.fars callee s there
    rw [Line.at_far is]
    exact ⟨callee, rfl, h.enters enters⟩

theorem Finished.stub_reads
    (shows : (Gen.module g stubs).Shows code g.config.maxBranchRange pieces filled')
    (kind : StubKind) :
    Fetch.instrAt code (stubs.get kind) = .ok (.instr kind.instr,
      stubs.get kind + kind.instr.size) := by
  have read :
      ∀ {s : Nat} {p : RangeKind} {i : Instr}, (s, (⟨p, [{ instr := i }]⟩ : Piece)) ∈ sited 0 pieces →
      (∀ value, i.fill value = i) → i.Ready Linkable → i.fetched = (.instr i, i.size) →
      Fetch.instrAt code s = .ok (.instr i, s + i.size) := by
    intro s p i there whole ready fetched
    have mem := located_of_sited there (mem_singleton.2 rfl)
    have short := shows.short mem
    have holds := shows.linked.code.holds mem
    rw [Line.at, whole] at short holds
    rw [instrAt_encode ready short holds, fetched]
  cases kind with
  | outOfBounds => exact read h.shared.outOfBounds (fun _ => rfl) trivial rfl
  | interrupt => exact read h.shared.interrupt (fun _ => rfl) trivial rfl
  | stackOverflow => exact read h.shared.stackOverflow (fun _ => rfl) trivial rfl
  | throw => exact read h.shared.throw (fun _ => rfl) trivial rfl

end

/-- Unless a request failed before and did harm, the code of a finished module can be linked.
Linking writes four bytes at places that lie apart from each other and from the displacements of
calls, in any order, and then every operand that names a stub, a symbol or the target of a far jump
is the right one. -/
theorem finish_links {config : Config} {history : List Request} {m : Module}
    (clean : Along Request.Clean (new config) history)
    (finished : Gen.finish ((new config).after history) = (.ok m, g)) :
    ∃ code pieces, m.Composed g.log code pieces ∧ m.link.patches.Pairwise
      (fun a b => WordsApart a.1 b.1) ∧
      (∀ x ∈ m.link.patches, x.1 + 4 ≤ m.code.size ∧
        ∀ o line, (o, line) ∈ located 0 (linesOf pieces) → line.instr.isCall = true →
          WordsApart x.1 (o + 1)) ∧
      (code.size = m.code.size ∧ ∀ i : Nat,
        (∀ x ∈ m.link.patches, i < x.1 ∨ x.1 + 4 ≤ i) → code.data[i]? = m.code.data[i]?) ∧
      (∀ patches : List (Nat × Nat), patches.Perm m.link.patches →
        patches.foldlM (fun code (place, value) => writeU32 code place value) m.code = .ok code) ∧
      (∀ kind, Fetch.instrAt code (m.stubs.get kind) = .ok (.instr kind.instr,
        m.stubs.get kind + kind.instr.size)) ∧
      ∀ s p o line, (s, p) ∈ sited 0 pieces → (o, line) ∈ located s p.lines → ∃ value,
        Fetch.instrAt code o = .ok ((line.instr.fill value).fetched.1,
          o + (line.instr.fill value).fetched.2) ∧
          m.Resolves p.kind (line.instr.fill value) := by
  obtain ⟨logged, pieces, filled, stubs, done, rfl, code, filled', composed, shows⟩ :=
    finish_composed clean finished
  have laid := done.kept.sound.laid
  rw [done.called] at laid
  have run : (Gen.module g stubs).link.link g.layout.code = .ok code := composed.linked
  have size : g.layout.code.size = extent (linesOf pieces) := done.size
  refine ⟨code, pieces, composed, laid.patches_apart done.links, ?_,
    ⟨composed.size.trans size.symm, fun i => link_outside run⟩,
    fun patches perm => (laid.link_perm done.links done.small perm).trans run,
      done.stub_reads shows, ?_⟩
  · rintro ⟨place, value⟩ mem
    obtain ⟨o, line, k, there, rfl, writes⟩ := (laid.mem_patches done.links).1 mem
    have hole := writes.hole there
    have ⟨_, inside⟩ := Instr.hole_le hole
    have le : o + line.instr.size ≤ _ := (located_le there).2
    refine ⟨by show o + k + 4 ≤ g.layout.code.size; omega, fun o' line' there' isCall => ?_⟩
    refine holes_apart there there' hole (Instr.mem_holes.2 (.inl ⟨rfl, .inl isCall⟩)) fun same =>
      ?_
    obtain ⟨rfl, rfl, rfl⟩ :=
      hole_unique there there' hole (Instr.mem_holes.2 (.inl ⟨rfl, .inl isCall⟩)) same
    have named := shows.calls_isSome there
    rw [isCall] at named
    obtain ⟨⟨callee, bytecode⟩, calls⟩ := Option.isSome_iff_exists.1 named
    rw [writes.not_call there] at calls
    cases calls
  · intro s p o line there inside
    have mem := located_of_sited there inside
    refine ⟨fun k => filled' (o + k), ?_, done.resolves shows.linked there inside⟩
    exact instrAt_encode (shows.ready mem (done.kept.full logged mem)) (shows.short mem)
      (shows.linked.code.holds mem)

/-- Where calls reach only 64 bytes, with an import. -/
theorem finish_links_exportedImport : ∃ m g code pieces,
    Gen.finish ((new { maxBranchRange := 64 }).after exportedImport) = (.ok m, g) ∧
      m.Composed g.log code pieces ∧
      m.link.patches ≠ [] ∧ m.link.patches.Pairwise (fun a b => WordsApart a.1 b.1) ∧
      m.link.patches.reverse.foldlM (fun code (place, value) => writeU32 code place value) m.code =
        .ok code := by
  have clean : Along Request.Clean (new { maxBranchRange := 64 }) exportedImport :=
    (harmless_of_served (by decide +kernel)).1
  obtain ⟨m, g, is, shown⟩ := finished_of { maxBranchRange := 64 } exportedImport
    (fun m => !m.link.patches.isEmpty) (by decide +kernel)
  obtain ⟨code, pieces, composed, apart, _, _, any, _⟩ := finish_links clean is
  exact ⟨m, g, code, pieces, is, composed, by simpa using shown, apart, any _ (reverse_perm _)⟩

/-- After a first attempt to finish failed, no link fills the far jump that the failed attempt
placed. -/
theorem unlisted_retried : ∃ m g, Gen.finish ((new {}).after retried) = (.ok m, g) ∧
    ∃ r ∈ m.ranges.toList, r.kind = .callThunk 1 ∧ ∀ x ∈ m.link.patches, WordsApart x.1
      (r.start + 1) := by
  obtain ⟨m, g, is, shown⟩ := finished_of {} retried
    (fun m => m.ranges.toList.any fun r => decide (r.kind = .callThunk 1) &&
      m.link.patches.all fun x =>
        decide (x.1 + 4 ≤ r.start + 1 ∨ r.start + 1 + 4 ≤ x.1)) (by decide +kernel)
  simp only [any_eq_true, Bool.and_eq_true, decide_eq_true_eq, all_eq_true] at shown
  exact ⟨m, g, is, shown⟩

end Generator
end Wasmill

import Wasmill.Machine
import Wasmill.Proofs.Effects
import Wasmill.Proofs.Generator.Finishing
import Wasmill.Proofs.Search

/-! What the machine meets in linked code.

`Module.Shows` says of a module and its linked code which pieces they show. At every line of the
pieces the machine meets the instruction of that line, and a trap there is blamed on what the line
says. -/
namespace Wasmill
open Code Steps Generator List Option

/-- The instruction can be read back. -/
def Code.Line.Full (line : Line) : Prop :=
  ∀ dst a b lanes, line.instr = .shuffle dst a b lanes → lanes.length = 16

/-- Calls of the function enter there in the piece at `s`. -/
def Code.Piece.EntersAt (p : Piece) (s func entry : Nat) : Prop :=
  (∃ bytecode, p.kind = .function func bytecode entry) ∨ p.kind = .interpExit func ∧ entry = s

/-- The linked code of the module is these pieces. -/
structure Module.Shows (m : Module) (code : ByteArray) (reach : Nat) (pieces : List Piece)
    (filled : Nat → Option Nat) :
    Prop where
  linked : Linked code reach pieces filled m.stubs
  small : code.size < UInt32.size
  sound : ∀ p ∈ pieces, p.Sound
  shared : Shared pieces m.stubs
  /-- Functions and exits are entered at a prologue of theirs. -/
  entered : ∀ s p func entry, (s, p) ∈ sited 0 pieces → p.EntersAt s func entry →
    ∃ line size stub, (entry, line) ∈ located s p.lines ∧ line.instr = .prologue size stub
  ranges : m.ranges.toList = (sited 0 pieces).map fun (s, p) => p.range s
  trapSites : m.trapSites.toList = (located 0 (linesOf pieces)).filterMap trapSite?

/-- The tables of the module are those of the pieces. -/
structure Module.Lists (m : Module) (pieces : List Piece) : Prop where
  ranges : m.ranges.toList = (sited 0 pieces).map fun (s, p) => p.range s
  trapSites : m.trapSites.toList = (located 0 (linesOf pieces)).filterMap trapSite?

theorem Module.Shows.lists {m : Module} {code : ByteArray} {reach : Nat} {pieces : List Piece}
    {filled : Nat → Option Nat}
    (h : m.Shows code reach pieces filled) : m.Lists pieces := ⟨h.ranges, h.trapSites⟩

namespace Exec
variable {r : Running} {code : ByteArray} {i : Instr}

theorem step_run (same : (r.world.instances.getD r.act.inst default).code = code) : step r = (do
    match ← lift (Fetch.instrAt code r.act.pc) with
    | (.instr i, next) => instr r.act.pc next i
    | (.table index, place) =>
      let index := (← slot index).low32.toNat
      branch r.act.pc (← lift (Fetch.tableDest code place index)) : Exec Next) r := by
  rw [← same]
  rfl

/-- One step executes the instruction that the code holds. -/
theorem step_eq (same : (r.world.instances.getD r.act.inst default).code = code)
    (holds : Holds code r.act.pc i.encode)
    (ready : i.Ready Linkable) (short : i.Short) :
    step r = instr r.act.pc (r.act.pc + i.size) i.narrowed r := by
  have met := instrAt_encode ready short holds
  rw [step_run same, met]
  by_cases table : ∃ index targets default, i = .brTable index targets default
  · obtain ⟨index, targets, default, rfl⟩ := table
    have dest := tableDest_encode short holds
    show (do
      let k ← slot (word index)
      branch r.act.pc (← lift (Fetch.tableDest code (r.act.pc + 5) k.low32.toNat)) : Exec Next) r =
      (do branch r.act.pc ((targets.map Dest.narrowed).getD
        (← slot (word index)).low32.toNat default.narrowed) : Exec Next) r
    simp only [dest]
    have at' : ∀ k : Nat, (targets.map Dest.narrowed).getD k default.narrowed =
        (targets.getD k default).narrowed := by
      intro k
      rw [getD_eq_getElem?_getD, getD_eq_getElem?_getD, getElem?_map]
      cases targets[k]? <;> rfl
    simp only [at']
    rfl
  · have plain : i.fetched = (.instr i.narrowed, i.size) := by
      cases i <;> first | rfl | exact absurd ⟨_, _, _, rfl⟩ table
    rw [plain]
    rfl

end Exec

namespace Module.Shows
variable {m : Module} {code : ByteArray} {reach : Nat} {pieces : List Piece}
  {filled : Nat → Option Nat} {o s : Nat} {line : Line}
  {p : Piece}

/-- The first line of a piece. -/
theorem first_line {rest : List Line} (there : (s, p) ∈ sited 0 pieces)
    (lines : p.lines = line :: rest) :
    (s, line) ∈ located 0 (linesOf pieces) := by
  refine located_of_sited there ?_
  rw [lines]
  exact mem_cons_self

theorem symbol_linkable (symbol : Symbol) : Linkable symbol.number := by
  have small : symbol.number < 10 := symbol.number_lt
  show word symbol.number ≠ unlinked
  rw [word_of_lt (show _ < 4294967296 by omega), unlinked]
  omega

variable (h : m.Shows code reach pieces filled)
include h

theorem size : code.size = extent (linesOf pieces) := h.linked.code.size

theorem line_lt (mem : (o, line) ∈ located 0 (linesOf pieces)) : o + line.size ≤ code.size := by
  have := (located_le mem).2
  rw [h.size]
  omega

theorem enters_lt {func entry : Nat} (enters : Code.Enters pieces func entry) :
    entry < code.size := by
  obtain ⟨s, p, there, enters⟩ := enters
  obtain ⟨line, _, _, inside, _⟩ := h.entered s p func entry there enters
  have := h.line_lt (located_of_sited there inside)
  have := line.size_pos
  omega

theorem short (mem : (o, line) ∈ located 0 (linesOf pieces)) : (line.at o filled).Short := by
  have := h.line_lt mem
  have := h.small
  show (line.at o filled).size < UInt32.size
  rw [Line.at_size]
  omega

/-- Offsets in the code are linked as they are. -/
theorem linkable_of_lt {target : Nat} (lt : target < code.size) :
    word target = target ∧ Linkable target := by
  have small := h.small
  have size : UInt32.size = 4294967296 := rfl
  have whole : word target = target := word_of_lt (by omega)
  refine ⟨whole, ?_⟩
  show word target ≠ unlinked
  rw [whole]
  unfold unlinked
  omega

theorem stub_lt (kind : StubKind) : m.stubs.get kind < code.size := by
  have lt : ∀ {s : Nat} {p : Piece} {line : Line}, (s, p) ∈ sited 0 pieces → p.lines = [line] →
      s < code.size := by
    intro s p line there lines
    have := h.line_lt (first_line there lines)
    have := line.size_pos
    omega
  cases kind with
  | outOfBounds => exact lt h.shared.outOfBounds rfl
  | interrupt => exact lt h.shared.interrupt rfl
  | stackOverflow => exact lt h.shared.stackOverflow rfl
  | throw => exact lt h.shared.throw rfl

variable (mem : (o, line) ∈ located 0 (linesOf pieces))
include mem

/-- In linked code every line is ready to be executed. -/
theorem ready (full : line.Full) : (line.at o filled).Ready Linkable := by
  have stub : ∀ place kind, line.instr.stub? = some (place, kind) →
      ∃ n, filled (o + place) = some n ∧ Linkable n :=
    fun place kind is => ⟨_, h.linked.stubs o line place kind mem is,
      (h.linkable_of_lt (h.stub_lt kind)).2⟩
  rcases (plain_or_far h.sound mem).symm with ⟨callee, there, rfl⟩ | plain
  · obtain ⟨entry, is, enters⟩ := h.linked.fars callee o there
    show Linkable ((filled (o + 1)).getD unlinked)
    have is : filled (o + 1) = some entry := is
    rw [is]
    exact (h.linkable_of_lt (h.enters_lt enters)).2
  · have symbol : line.instr.hasSymbol = true → ∃ n, filled (o + 1) = some n ∧ Linkable n := by
      intro has
      obtain ⟨symbol, is⟩ := isSome_iff_exists.1 (plain.symbol.trans has)
      exact ⟨_, h.linked.symbols o line symbol mem is, symbol_linkable symbol⟩
    unfold Line.at
    cases is : line.instr with
    | prologue frameSize old =>
      obtain ⟨n, at', ok⟩ := stub 5 .stackOverflow (by rw [is]; rfl)
      simpa [Instr.fill, Instr.Ready, at'] using ok
    | checkInterrupt old old' =>
      obtain ⟨n, at', ok⟩ := stub 5 .interrupt (by rw [is]; rfl)
      obtain ⟨n', at'', ok'⟩ := symbol (by rw [is]; rfl)
      simpa [Instr.fill, Instr.Ready, at', at''] using ⟨ok', ok⟩
    | load _ _ _ _ _ | store _ _ _ _ _ =>
      obtain ⟨n, at', ok⟩ := stub 14 .outOfBounds (by rw [is]; rfl)
      simpa [Instr.fill, Instr.Ready, at'] using ok
    | memorySize _ _ | memoryGrow _ _ _ =>
      obtain ⟨n, at', ok⟩ := symbol (by rw [is]; rfl)
      simpa [Instr.fill, Instr.Ready, at'] using ok
    | exit optimized old importIndex nargs old' =>
      obtain ⟨n, at', ok⟩ := stub 13 .throw (by rw [is]; rfl)
      obtain ⟨n', at'', ok'⟩ := symbol (by rw [is]; rfl)
      simpa [Instr.fill, Instr.Ready, at', at''] using ⟨ok', ok⟩
    | jumpFar target =>
      have near := plain.near
      rw [is] at near
      cases near
    | shuffle dst a b lanes => exact full dst a b lanes is
    | _ => trivial

/-- A line is a call if and only if it names a callee. -/
theorem calls_isSome : line.calls.isSome = line.instr.isCall := by
  obtain ⟨s, p, there, inside⟩ := sited_of_located mem
  rcases h.sound p (mem_of_sited there) with ⟨callee, rfl⟩ | ⟨_, plain⟩
  · cases mem_singleton.1 inside
    rfl
  · exact (plain line (mem_of_located inside)).calls

/-- The machine meets every call with the displacement to where it leads. -/
theorem call {callee bytecode : Nat} (calls : line.calls = some (callee, bytecode)) :
    ∃ target rel args dst, line.instr = .call rel args dst ∧
      Settled reach pieces filled o callee target ∧
      (line.at o filled).narrowed = .call ((target : Int) - o) (args.map word) (word dst) := by
  obtain ⟨target, settled⟩ := h.linked.calls o line callee bytecode mem calls
  have isCall := h.calls_isSome mem
  rw [calls] at isCall
  obtain ⟨rel, args, dst, is⟩ : ∃ rel args dst, line.instr = .call rel args dst := by
    cases instr : line.instr with
    | call rel args dst => exact ⟨rel, args, dst, rfl⟩
    | _ => rw [instr] at isCall; cases isCall
  refine ⟨target, rel, args, dst, is, settled, ?_⟩
  have written := settled.written
  have whole :
      signedWord (signedWord (((target : Int) - o) % UInt32.size).toNat) = (target : Int) - o := by
    have same :
        ((((target : Int) - o) % UInt32.size).toNat : Int) = ((target : Int) - o) % UInt32.size :=
      Int.toNat_of_nonneg (Int.emod_nonneg _ (by decide))
    have once : signedWord (((target : Int) - o) % UInt32.size).toNat = (target : Int) - o := by
      rw [same, signedWord, Int.emod_bmod]
      exact signedWord_of_fits settled.fits.1 settled.fits.2
    rw [once]
    exact signedWord_of_fits settled.fits.1 settled.fits.2
  unfold Line.at
  rw [is]
  show Instr.call (signedWord (Instr.displacement rel (filled (o + Chunk.firstOperand)))) _ _ = _
  rw [written]
  exact congrArg (Instr.call · (args.map word) (word dst)) whole

/-- One step at a line executes the instruction of that line. -/
theorem step (full : line.Full) {r : Running}
    (same : (r.world.instances.getD r.act.inst default).code = code)
    (at' : r.act.pc = o) :
    Exec.step r = Exec.instr o (o + line.size) (line.at o filled).narrowed r := by
  subst at'
  have size : (line.at r.act.pc filled).size = line.size := Line.at_size
  rw [← size]
  exact Exec.step_eq same (h.linked.code.holds mem) (h.ready mem full) (h.short mem)

theorem leads_step (full : line.Full) {r : Running}
    (same : (r.world.instances.getD r.act.inst default).code = code) (at' : r.act.pc = o)
    {Q : Next → Running → Prop} {E : Error → Running → Prop} :
    Leads Exec.step r Q E ↔
      Leads (Exec.instr o (o + line.size) (line.at o filled).narrowed) r Q E := by
  unfold Leads
  rw [h.step mem full same at']

end Module.Shows

/-! ### Ranges and sites -/

namespace Module.Lists
variable {m : Module} {pieces : List Piece} {o s : Nat} {line : Line} {p : Piece}

theorem pairwise_getElem? {α : Type} {R : α → α → Prop} {xs : List α} (order : xs.Pairwise R)
    {i j : Nat} {x y : α}
    (lt : i < j) (is : xs[i]? = some x) (is' : xs[j]? = some y) : R x y := by
  obtain ⟨inside, rfl⟩ := List.getElem?_eq_some_iff.1 is
  obtain ⟨inside', rfl⟩ := List.getElem?_eq_some_iff.1 is'
  exact pairwise_iff_getElem.1 order i j inside inside' lt

theorem getElem?_sited {k : Nat} (is : (sited 0 pieces)[k]? = some (s, p)) {j s' : Nat} {p' : Piece}
    (after : k < j)
    (is' : (sited 0 pieces)[j]? = some (s', p')) : s + p.size ≤ s' := by
  exact pairwise_getElem? (sited_order pieces 0) after is is'

variable (h : m.Lists pieces)
include h

/-- The range of a place in a piece is that of the piece. -/
theorem rangeAt? (there : (s, p) ∈ sited 0 pieces) {pc : Nat} (low : s ≤ pc)
    (high : pc < s + p.size) : m.rangeAt? pc = some (p.range s) := by
  have listed : ∀ k : Nat, m.ranges[k]? = ((sited 0 pieces)[k]?).map fun (s, p) => p.range s := by
    intro k
    rw [← Array.getElem?_toList, h.ranges, getElem?_map]
  obtain ⟨k, is⟩ := getElem?_of_mem there
  have here : m.ranges[k]? = some (p.range s) := by rw [listed, is]; rfl
  have point : Search.partitionPoint (fun r => decide (r.stop ≤ pc)) m.ranges = k := by
    refine Search.partitionPoint_eq (Array.getElem?_eq_some_iff.1 here).1 ?_ ?_
    · intro j r before is'
      rw [listed] at is'
      obtain ⟨⟨s', p'⟩, at', rfl⟩ := map_eq_some_iff.1 is'
      have := getElem?_sited at' before is
      refine decide_eq_true ?_
      show s' + p'.size ≤ pc
      omega
    · intro j r after is'
      rw [listed] at is'
      obtain ⟨⟨s', p'⟩, at', rfl⟩ := map_eq_some_iff.1 is'
      refine decide_eq_false ?_
      show ¬ s' + p'.size ≤ pc
      rcases Nat.lt_or_eq_of_le after with lt | rfl
      · have := getElem?_sited is lt at'
        omega
      · rw [is] at at'
        cases at'
        omega
  unfold Module.rangeAt? Range.find?
  rw [point, here, filter_some, if_pos]
  exact Bool.and_eq_true_iff.2 ⟨decide_eq_true low, decide_eq_true high⟩

theorem order : m.trapSites.toList.Pairwise fun a b => a.code < b.code := by
  rw [h.trapSites]
  refine List.Pairwise.filterMap trapSite? ?_ (located_order _ 0)
  rintro ⟨o, l⟩ ⟨o', l'⟩ le site is site' is'
  obtain ⟨b, _, rfl⟩ := map_eq_some_iff.1 is
  obtain ⟨b', _, rfl⟩ := map_eq_some_iff.1 is'
  exact Nat.lt_of_lt_of_le (Nat.lt_add_of_pos_right l.size_pos) le

/-- The module offset of a line is the one that the line gives. -/
theorem site (mem : (o, line) ∈ located 0 (linesOf pieces)) :
    Site.find? m.trapSites o = line.traps := by
  have sorted : Search.Sorted Site.code m.trapSites := by
    intro i j x y lt is is'
    rw [← Array.getElem?_toList] at is is'
    exact pairwise_getElem? h.order lt is is'
  unfold Site.find?
  cases is : line.traps with
  | some bytecode =>
    have listed : (⟨o, bytecode⟩ : Site) ∈ m.trapSites.toList := by
      rw [h.trapSites]
      exact mem_filterMap.2 ⟨(o, line), mem, by simp [trapSite?, is]⟩
    obtain ⟨k, at'⟩ := getElem?_of_mem listed
    rw [Array.getElem?_toList] at at'
    have found : Search.findKey? Site.code o m.trapSites = some ⟨o, bytecode⟩ :=
      Search.findKey?_of_getElem? sorted at'
    rw [found]
    rfl
  | none =>
    cases found : Search.findKey? Site.code o m.trapSites with
    | none => rfl
    | some site =>
      obtain ⟨at', mem'⟩ := Search.findKey?_eq_some found
      have mem' : site ∈ m.trapSites.toList := Array.mem_toList_iff.2 mem'
      rw [h.trapSites] at mem'
      obtain ⟨⟨o', line'⟩, there, made⟩ := mem_filterMap.1 mem'
      obtain ⟨b, traps, rfl⟩ := map_eq_some_iff.1 made
      cases at'
      rw [located_eq mem there, traps] at is
      cases is

/-- The module offset of the body that the piece is. -/
def body? (p : Piece) : Option Nat :=
  match p.kind with
  | .function _ bytecode _ => some bytecode
  | _ => none

/-- Whom to blame for a trap at a line. -/
theorem trapInfo (there : (s, p) ∈ sited 0 pieces) (inside : (o, line) ∈ located s p.lines)
    (t : Trap) :
    m.trapInfo t o = { trap := t, func := p.func?, offset := line.traps <|> body? p } := by
  have ⟨low, high⟩ := located_le inside
  have range := h.rangeAt? there low (by have := line.size_pos; unfold Piece.size; omega)
  have site := h.site (located_of_sited there inside)
  unfold Module.trapInfo
  rw [range, site]
  unfold body?
  cases kind : p.kind <;> simp [Piece.range, Piece.func?, Range.func?, kind]

end Module.Lists
end Wasmill

import Wasmill.Code.Layout
import Wasmill.Proofs.Code.Lines
import Wasmill.Proofs.Effects

/-! Placed code.

A layout is a list of *pieces*, each with the range it became and the lines it was made of. `Laid`
says how the layout shows them: the bytes of their lines, with some holes filled, and the tables
that refer to them. A call is settled once its displacement leads to its callee or to a far jump for
it, in reach; the others wait. -/
namespace Wasmill.Code
open Ssa List Steps

/-! ### Pieces -/

/-- A chunk that was placed: what its range is, and its lines. -/
structure Piece where
  kind : RangeKind
  lines : List Line

namespace Piece

def size (p : Piece) : Nat := extent p.lines

/-- The range of the piece at `start`. -/
def range (start : Nat) (p : Piece) : Range := ⟨p.kind, start, start + p.size⟩

/-- A far jump to a function. -/
def far (callee : Nat) : Piece := ⟨.callThunk callee, [{ instr := .jumpFar unlinked }]⟩

/-- A piece is a far jump, or all its lines say enough. -/
def Sound (p : Piece) : Prop :=
  (∃ callee, p = far callee) ∨ (∀ callee, p.kind ≠ .callThunk callee) ∧ ∀ line ∈ p.lines, line.Plain

end Piece

/-- All lines of pieces one after another. -/
def linesOf (pieces : List Piece) : List Line := pieces.flatMap (·.lines)

/-- Pieces with their offsets, the first at `start`. -/
def sited (start : Nat) : List Piece → List (Nat × Piece)
  | [] => []
  | p :: rest => (start, p) :: sited (start + p.size) rest

section
variable {start o s : Nat} {line : Line} {p q : Piece} {pieces a b : List Piece}

@[simp] theorem linesOf_nil : linesOf [] = [] := rfl

@[simp] theorem linesOf_cons : linesOf (p :: pieces) = p.lines ++ linesOf pieces := rfl

@[simp] theorem linesOf_append : linesOf (a ++ b) = linesOf a ++ linesOf b := flatMap_append

@[simp] theorem sited_nil : sited start [] = [] := rfl

@[simp] theorem sited_cons :
    sited start (p :: pieces) = (start, p) :: sited (start + p.size) pieces := rfl

theorem sited_append :
    sited start (a ++ b) = sited start a ++ sited (start + extent (linesOf a)) b := by
  induction a generalizing start with
  | nil => simp
  | cons p a ih => simp [ih, Piece.size, Nat.add_assoc]

theorem mem_of_sited (mem : (s, p) ∈ sited start pieces) : p ∈ pieces := by
  induction pieces generalizing start with
  | nil => cases mem
  | cons q pieces ih =>
    rcases mem_cons.1 mem with is | mem
    · cases is
      exact mem_cons_self
    · exact mem_cons_of_mem _ (ih mem)

theorem sited_of_mem (start : Nat) (mem : p ∈ pieces) : ∃ s, (s, p) ∈ sited start pieces := by
  induction pieces generalizing start with
  | nil => cases mem
  | cons q pieces ih =>
    rcases mem_cons.1 mem with is | mem
    · cases is
      exact ⟨start, mem_cons_self⟩
    · obtain ⟨s, there⟩ := ih (start + q.size) mem
      exact ⟨s, mem_cons_of_mem _ there⟩

theorem sited_split (mem : (s, p) ∈ sited start pieces) :
    ∃ before after, pieces = before ++ p :: after ∧ s = start + extent (linesOf before) := by
  induction pieces generalizing start with
  | nil => cases mem
  | cons q pieces ih =>
    rcases mem_cons.1 mem with is | mem
    · cases is
      exact ⟨[], pieces, rfl, by simp⟩
    · obtain ⟨before, after, rfl, rfl⟩ := ih mem
      exact ⟨q :: before, after, rfl, by simp [Piece.size, Nat.add_assoc]⟩

/-- The lines of pieces lie where the pieces lie. -/
theorem located_linesOf :
    located start (linesOf pieces) = (sited start pieces).flatMap fun (s, p) => located s p.lines := by
  induction pieces generalizing start with
  | nil => rfl
  | cons p pieces ih => rw [linesOf_cons, located_append, ih]; rfl

theorem located_of_sited (mem : (s, p) ∈ sited start pieces)
    (inside : (o, line) ∈ located s p.lines) :
    (o, line) ∈ located start (linesOf pieces) := by
  rw [located_linesOf]
  exact mem_flatMap.2 ⟨(s, p), mem, inside⟩

theorem sited_of_located (mem : (o, line) ∈ located start (linesOf pieces)) :
    ∃ s p, (s, p) ∈ sited start pieces ∧ (o, line) ∈ located s p.lines := by
  rw [located_linesOf] at mem
  obtain ⟨⟨s, p⟩, there, inside⟩ := mem_flatMap.1 mem
  exact ⟨s, p, there, inside⟩

theorem sited_le (mem : (s, p) ∈ sited start pieces) :
    start ≤ s ∧ s + p.size ≤ start + extent (linesOf pieces) := by
  obtain ⟨before, after, rfl, rfl⟩ := sited_split mem
  simp only [linesOf_append, linesOf_cons, extent_append, Piece.size]
  omega

theorem sited_order (pieces : List Piece) (start : Nat) : (sited start pieces).Pairwise fun a b =>
    a.1 + a.2.size ≤ b.1 := by
  induction pieces generalizing start with
  | nil => exact List.Pairwise.nil
  | cons p pieces ih => exact List.Pairwise.cons (fun _ mem => (sited_le mem).1) (ih _)

/-- Two pieces with lines that start at one place are one. -/
theorem sited_unique (one : (s, p) ∈ sited start pieces) (two : (s, q) ∈ sited start pieces)
    (some' : p.lines ≠ []) (some'' : q.lines ≠ []) : p = q := by
  have pos : ∀ p : Piece, p.lines ≠ [] → 0 < p.size := by
    intro p some'
    unfold Piece.size
    cases is : p.lines with
    | nil => exact absurd is some'
    | cons line rest =>
      have := line.size_pos
      rw [extent_cons]
      omega
  have := pos p some'
  have := pos q some''
  rcases pairwise_cases (sited_order pieces start) one two with
    same | (le : s + p.size ≤ s) | (le : s + q.size ≤ s)
  · exact (Prod.mk.inj same).2
  · omega
  · omega

end

/-! ### Where calls lead -/

/-- Calls of the function enter there: in its own code, or at the generic exit of the import. -/
def Enters (pieces : List Piece) (func entry : Nat) : Prop :=
  ∃ s p, (s, p) ∈ sited 0 pieces ∧
    ((∃ bytecode, p.kind = .function func bytecode entry) ∨ p.kind = .interpExit func ∧ entry = s)

/-- A far jump to the function lies there. -/
def FarJump (pieces : List Piece) (func place : Nat) : Prop :=
  (place, Piece.far func) ∈ sited 0 pieces

/-- The call at `o` has a displacement that leads to its callee or to a far jump for it, in reach.
-/
structure Settled (reach : Nat) (pieces : List Piece) (filled : Nat → Option Nat)
    (o callee target : Nat) : Prop where
  written : filled (o + Chunk.firstOperand) = some (((target : Int) - o) % UInt32.size).toNat
  reached : ((target : Int) - o).natAbs ≤ reach
  fits : -0x80000000 ≤ (target : Int) - o ∧ (target : Int) - o < 0x80000000
  leads : Enters pieces callee target ∨ FarJump pieces callee target

section
variable {a b : List Piece} {func entry reach o target : Nat} {filled : Nat → Option Nat}
  {line : Line}

theorem Enters.mono (h : Enters a func entry) : Enters (a ++ b) func entry := by
  obtain ⟨s, p, mem, is⟩ := h
  exact ⟨s, p, by rw [sited_append]; exact mem_append_left _ mem, is⟩

theorem FarJump.mono (h : FarJump a func o) : FarJump (a ++ b) func o := by
  unfold FarJump
  rw [sited_append]
  exact mem_append_left _ h

theorem plain_or_far (sound : ∀ p ∈ a, p.Sound) (mem : (o, line) ∈ located 0 (linesOf a)) :
    line.Plain ∨ ∃ callee, FarJump a callee o ∧ line = { instr := .jumpFar unlinked } := by
  obtain ⟨s, p, there, inside⟩ := sited_of_located mem
  rcases sound p (mem_of_sited there) with ⟨callee, rfl⟩ | ⟨_, plain⟩
  · cases mem_singleton.1 inside
    exact .inr ⟨callee, there, rfl⟩
  · exact .inl (plain line (mem_of_located inside))

/-- Far jumps name no symbol. -/
theorem plain_of_symbol (sound : ∀ p ∈ a, p.Sound) (mem : (o, line) ∈ located 0 (linesOf a))
    {symbol : Symbol}
    (is : line.symbol = some symbol) : line.Plain := by
  rcases plain_or_far sound mem with plain | ⟨_, _, rfl⟩
  · exact plain
  · cases is

theorem Settled.mono (h : Settled reach a filled o func target) :
    Settled reach (a ++ b) filled o func target :=
  { h with leads := h.leads.imp Enters.mono FarJump.mono }

end

/-! ### Layouts -/

/-- Every call of the pieces waits, or is settled. -/
def Accounted (reach : Nat) (pieces : List Piece) (filled : Nat → Option Nat)
    (waiting : List PendingCall) : Prop :=
  ∀ o line callee bytecode, (o, line) ∈ located 0 (linesOf pieces) →
    line.calls = some (callee, bytecode) →
    ⟨o, o + Chunk.firstOperand, callee⟩ ∈ waiting ∨
      ∃ target, Settled reach pieces filled o callee target

/-- The layout shows these pieces, with the holes filled where `filled` says so, and such calls
wait. Code that has outgrown its offsets shows nothing: it ends in a chunk that was given up, and
none can follow. -/
structure Laid (l : Layout) (pieces : List Piece) (filled : Nat → Option Nat)
    (waiting : List PendingCall) : Prop where
  code : l.code.size < UInt32.size → Assembles l.code (linesOf pieces) filled
  within : extent (linesOf pieces) ≤ l.code.size
  fresh : ∀ p, extent (linesOf pieces) ≤ p → filled p = none
  ranges : l.ranges.toList = (sited 0 pieces).map fun (s, p) => p.range s
  sound : ∀ p ∈ pieces, p.Sound
  trapSites : l.trapSites.toList = (located 0 (linesOf pieces)).filterMap trapSite?
  callSites : l.callSites.toList = (located 0 (linesOf pieces)).filterMap fun site =>
    (callSite? site).map fun c => ⟨c.returnsTo, c.bytecode⟩
  symbols : l.link.symbolic.size = Symbol.count ∧ ∀ symbol : Symbol,
    (l.link.symbolic.getD symbol.number #[]).toList = (located 0 (linesOf pieces)).filterMap
      (symbolPlace? symbol)
  indirectSigs : ∀ sig, sig ∈ l.indirectSigs ↔ ∃ line ∈ linesOf pieces, line.expects = some sig
  entries : ∀ func entry, l.entry? func = some entry → Enters pieces func entry
  waits : ∀ c ∈ waiting, c.patchAt = c.offset + Chunk.firstOperand ∧
    ∃ line bytecode, (c.offset, line) ∈ located 0 (linesOf pieces) ∧
      line.calls = some (c.callee, bytecode)

/-- A call that waits, for a line that was just placed. -/
def pendingCall? : Nat × Line → Option PendingCall
  | (o, line) => line.calls.map fun (callee, _) => ⟨o, o + Chunk.firstOperand, callee⟩

/-- The operand of a far jump, and the function it leads to. -/
def farRef? : Nat × Piece → Option (Nat × Nat)
  | (s, p) =>
    match p.kind with
    | .callThunk callee => some (s + Chunk.firstOperand, callee)
    | _ => none

/-- Nothing was linked yet: all operands that will be are listed. -/
structure Unlinked (l : Layout) (pieces : List Piece) : Prop where
  stubs : l.pendingStubs.toList = (located 0 (linesOf pieces)).filterMap stubRef?
  fars : l.thunkTargets.toList = (sited 0 pieces).filterMap farRef?
  internal : l.link.internal = #[]
  funcPtrs : l.link.funcPtrs = #[]

/-- The next pass can bring far jumps into reach of all waiting calls. -/
structure Budget (l : Layout) : Prop where
  patched : l.lastPatched ≤ l.code.size
  waiting : ∀ c ∈ l.pendingCalls, l.lastPatched ≤ c.offset
  room : l.code.size - l.lastPatched + l.pendingCalls.size * thunkSize ≤ l.reach

theorem Laying.leads_codeEnd {l : Layout} {Q : Nat → Layout → Prop} {E : Error → Layout → Prop} :
    Leads Laying.codeEnd l Q E ↔
    if l.code.size < UInt32.size then Q l.code.size l else E (.codeTooLarge .code) l := by
  unfold Laying.codeEnd
  rw [leads_bind, leads_get, leads_ite, leads_pure, leads_throw]

namespace Laid
variable {l l' : Layout} {pieces : List Piece} {filled : Nat → Option Nat}
  {waiting rest : List PendingCall}
  {c : PendingCall}

theorem new (reach : Nat) : Laid { reach := reach } [] (fun _ => none) [] := by
  refine ⟨fun _ => rfl, Nat.le_refl 0, fun _ _ => rfl, rfl, by simp, rfl, rfl, ⟨rfl, ?_⟩, by simp,
    ?_, by simp⟩
  · intro symbol
    have none' : ∀ n, (Array.replicate Symbol.count (#[] : Array Nat)).getD n #[] = #[] := by
      intro n
      rw [Array.getD_eq_getD_getElem?, Array.getElem?_replicate]
      split <;> rfl
    simp [none']
  · intro func entry is
    simp [Layout.entry?] at is

theorem setEntry_entries (l : Layout) (func entry func' : Nat) :
    Layout.entry? (l.setEntry func entry) func' = if func' = func then some entry
      else l.entry? func' := by
  simp only [Layout.entry?, Layout.setEntry, Array.getElem?_setIfInBounds, Array.size_append,
    Array.size_replicate]
  by_cases is : func = func'
  · subst is
    rw [if_pos rfl, if_pos (by omega), if_pos rfl]
    rfl
  · rw [if_neg is, if_neg (Ne.symm is), Array.getElem?_append, Array.getElem?_replicate]
    by_cases inside : func' < l.entries.size
    · rw [if_pos inside]
    · rw [if_neg inside, Array.getElem?_eq_none (by omega)]
      split <;> rfl

section
variable (h : Laid l pieces filled waiting)
include h

theorem size (small : l.code.size < UInt32.size) : l.code.size = extent (linesOf pieces) :=
  (h.code small).size

/-- Fewer calls wait. -/
theorem wait (fewer : ∀ c ∈ rest, c ∈ waiting) : Laid l pieces filled rest :=
  { h with waits := fun c mem => h.waits c (fewer c mem) }

/-- Code that outgrows its offsets. -/
theorem outgrow {code : ByteArray} (large : UInt32.size ≤ code.size)
    (longer : l.code.size ≤ code.size) :
    Laid { l with code } pieces filled waiting :=
  { h with code := fun small => absurd small (Nat.not_lt.2 large), within :=
    Nat.le_trans h.within longer }

theorem calls_hole {o callee bytecode : Nat} {line : Line}
    (mem : (o, line) ∈ located 0 (linesOf pieces))
    (calls : line.calls = some (callee, bytecode)) : Chunk.firstOperand ∈ line.instr.holes := by
  rcases plain_or_far h.sound mem with plain | ⟨_, _, rfl⟩
  · have := plain.calls
    rw [calls] at this
    exact Instr.mem_holes.2 (.inl ⟨rfl, .inl this.symm⟩)
  · cases calls

/-- One more piece. -/
theorem grow (l' : Layout) {p : Piece} (sound : p.Sound) (small : l.code.size < UInt32.size)
    (entries : l'.entries = l.entries)
    (code : l'.code.data.toList = l.code.data.toList ++ p.lines.flatMap (·.instr.encode))
    (ranges : l'.ranges.toList = l.ranges.toList ++ [p.range l.code.size])
    (traps : l'.trapSites.toList = l.trapSites.toList ++
      (located l.code.size p.lines).filterMap trapSite?)
    (calls : l'.callSites.toList = l.callSites.toList ++ (located l.code.size p.lines).filterMap
      fun site =>
      (callSite? site).map fun c => ⟨c.returnsTo, c.bytecode⟩)
    (symbols : l'.link.symbolic.size = Symbol.count ∧ ∀ symbol : Symbol,
      (l'.link.symbolic.getD symbol.number #[]).toList =
      (l.link.symbolic.getD symbol.number #[]).toList ++ (located l.code.size p.lines).filterMap
        (symbolPlace? symbol))
    (sigs : ∀ sig, sig ∈ l'.indirectSigs ↔ sig ∈ l.indirectSigs ∨ ∃ line ∈ p.lines,
      line.expects = some sig) :
    Laid l' (pieces ++ [p]) filled
      (waiting ++ (located l.code.size p.lines).filterMap pendingCall?) := by
  have size := h.size small
  have one : linesOf [p] = p.lines := by simp
  have all : located 0 (linesOf (pieces ++ [p])) = located 0
      (linesOf pieces) ++ located l.code.size p.lines := by
    rw [linesOf_append, located_append, Nat.zero_add, ← size, one]
  have sites : sited 0 (pieces ++ [p]) = sited 0 pieces ++ [(l.code.size, p)] := by
    rw [sited_append, Nat.zero_add, ← size]
    rfl
  have grown : l'.code.size = l.code.size + p.size := by
    have : l'.code.data.toList.length = l'.code.size := rfl
    rw [← this, code, length_append, ← content_unfilled 0, content_length]
    rfl
  -- the new lines have no hole filled yet
  have new : content l.code.size p.lines filled = p.lines.flatMap (·.instr.encode) := by
    rw [← content_unfilled l.code.size]
    exact content_congr fun o line k mem _ => h.fresh _ (by have := (located_le mem).1; omega)
  have ends : extent (linesOf (pieces ++ [p])) = l.code.size + p.size := by
    rw [linesOf_append, extent_append, one, size]
    rfl
  refine ⟨fun _ => ?_, by omega, fun q le => h.fresh q (by omega), ?_, ?_, ?_, ?_,
    ⟨symbols.1, ?_⟩, ?_, ?_, ?_⟩
  · rw [Assembles, linesOf_append, content_append, Nat.zero_add, ← size, code,
      h.code small, one, new]
  · rw [ranges, h.ranges, sites, map_append]
    rfl
  · intro q mem
    rcases mem_append.1 mem with mem | mem
    · exact h.sound q mem
    · cases mem_singleton.1 mem
      exact sound
  · rw [traps, h.trapSites, all, filterMap_append]
  · rw [calls, h.callSites, all, filterMap_append]
  · intro symbol
    rw [symbols.2, h.symbols.2, all, filterMap_append]
  · intro sig
    rw [sigs, h.indirectSigs, linesOf_append, one]
    simp only [mem_append, or_and_right, exists_or]
  · intro func entry is
    unfold Layout.entry? at is
    rw [entries] at is
    exact (h.entries func entry is).mono
  · intro c mem
    rcases mem_append.1 mem with mem | mem
    · obtain ⟨patchAt, line, bytecode, there, calls⟩ := h.waits c mem
      exact ⟨patchAt, line, bytecode, by rw [all]; exact mem_append_left _ there, calls⟩
    · obtain ⟨⟨o, line⟩, there, is⟩ := mem_filterMap.1 mem
      obtain ⟨⟨callee, bytecode⟩, calls, rfl⟩ := Option.map_eq_some_iff.1 is
      exact ⟨rfl, line, bytecode, by rw [all]; exact mem_append_right _ there, calls⟩

/-! ### Entries -/

theorem setEntry {func entry : Nat} (enters : Enters pieces func entry) :
    Laid (l.setEntry func entry) pieces filled waiting :=
  { h with
    entries := fun func' entry' is => by
      rw [setEntry_entries] at is
      split at is
      · cases is
        simp only [*]
      · exact h.entries func' entry' is }

/-! ### Far jumps -/

/-- A far jump is added, or the code has outgrown its offsets. -/
theorem addThunk (callee : Nat) : Leads (Laying.addThunk callee) l
      (fun start l' => start = l.code.size ∧ l.code.size < UInt32.size ∧
        l'.code.size = l.code.size + thunkSize ∧
        Laid l' (pieces ++ [Piece.far callee]) filled waiting ∧
        l' = { l with code := l'.code, ranges := l'.ranges
                      thunkTargets := l.thunkTargets.push (start + Chunk.firstOperand, callee) })
      (fun _ l' => Laid l' pieces filled waiting ∧ l' = { l with code := l'.code } ∧
        UInt32.size ≤ l'.code.size ∧
        l.code.size ≤ l'.code.size ∧ l'.code.size ≤ l.code.size + thunkSize) := by
  unfold Laying.addThunk
  rw [leads_bind, Laying.leads_codeEnd]
  split
  rotate_left
  · exact ⟨h, rfl, by omega, Nat.le_refl _, Nat.le_add_right ..⟩
  rename_i small
  have sizes : (Chunk.appendBytes l.code thunk).size = l.code.size + thunkSize :=
    Chunk.appendBytes_size ..
  rw [leads_bind, leads_modify, leads_bind, Laying.leads_codeEnd, sizes]
  split
  · rw [leads_bind, leads_modify, leads_pure]
    refine ⟨rfl, small, sizes, ?_, rfl⟩
    have bytes : thunk = (Piece.far callee).lines.flatMap (·.instr.encode) := by
      simp [thunk, Piece.far]
    have := h.grow { l with
        code := Chunk.appendBytes l.code thunk
        ranges := l.ranges.push ⟨.callThunk callee, l.code.size, l.code.size + thunkSize⟩
        thunkTargets := l.thunkTargets.push (l.code.size + Chunk.firstOperand, callee) }
      (p := Piece.far callee) (.inl ⟨callee, rfl⟩) small rfl
        (by rw [Chunk.appendBytes_toList, bytes])
      (by simp [Piece.range]; exact ⟨rfl, rfl⟩) (by simp [Piece.far, trapSite?])
        (by simp [Piece.far, callSite?])
      ⟨h.symbols.1, by simp [Piece.far, symbolPlace?]⟩ (by simp [Piece.far])
    have none' : (located l.code.size (Piece.far callee).lines).filterMap pendingCall? = [] := rfl
    rwa [none', append_nil] at this
  · exact ⟨h.outgrow (by omega) (by omega), rfl, by omega, by omega, Nat.le_refl _⟩

end
end Laid

end Wasmill.Code

import Wasmill.Proofs.Code.Passing

/-! Linked code.

Linking writes numbers into holes, one after another. If all holes of a layout are accounted for,
the linked code is the lines with every hole filled: stubs and symbols with their numbers, far jumps
with the entries of their functions, and calls with the displacements that they were given before.
-/
namespace Wasmill.Code
open List Instr Option

/-! ### Writing many numbers -/

/-- The holes after numbers were written at places, one after another. -/
def written (filled : Nat → Option Nat) (patches : List (Nat × Nat)) : Nat → Option Nat :=
  patches.foldl (fun filled (place, value) p => if p = place then some value else filled p) filled

section
variable {filled : Nat → Option Nat} {patches : List (Nat × Nat)} {p v : Nat} {code : ByteArray}
  {lines : List Line}

theorem written_of_not_mem (out : ∀ v, (p, v) ∉ patches) : written filled patches p = filled p := by
  induction patches generalizing filled with
  | nil => rfl
  | cons patch patches ih =>
    obtain ⟨place, value⟩ := patch
    rw [written, foldl_cons, ← written, ih fun v mem => out v (mem_cons_of_mem _ mem)]
    exact if_neg fun (is : p = place) => out value (by rw [is]; exact mem_cons_self ..)

theorem written_of_mem (mem : (p, v) ∈ patches) (only : ∀ v', (p, v') ∈ patches → v' = v) :
    written filled patches p = some v := by
  induction patches generalizing filled with
  | nil => cases mem
  | cons patch patches ih =>
    obtain ⟨place, value⟩ := patch
    rw [written, foldl_cons, ← written]
    by_cases again : ∃ v', (p, v') ∈ patches
    · obtain ⟨v', there⟩ := again
      cases only v' (mem_cons_of_mem _ there)
      exact ih there fun v' mem => only v' (mem_cons_of_mem _ mem)
    · rw [written_of_not_mem fun v' there => again ⟨v', there⟩]
      rcases mem_cons.1 mem with is | there
      · cases is
        exact if_pos rfl
      · exact absurd ⟨v, there⟩ again

theorem Assembles.writeAll (h : Assembles code lines filled) (patches : List (Nat × Nat))
    (holes : ∀ p v, (p, v) ∈ patches → ∃ o line k,
      (o, line) ∈ located 0 lines ∧ k ∈ line.instr.holes ∧ p = o + k) :
    ∃ code', patches.foldlM (fun code (place, value) =>
      writeU32 code place value) code = .ok code' ∧
      Assembles code' lines (written filled patches) := by
  induction patches generalizing code filled with
  | nil => exact ⟨code, rfl, h⟩
  | cons patch patches ih =>
    obtain ⟨place, value⟩ := patch
    obtain ⟨o, line, k, there, hole, rfl⟩ := holes place value mem_cons_self
    obtain ⟨code₁, writes, assembles⟩ := h.write (n := value) there hole
    obtain ⟨code', rest, done⟩ := ih assembles fun p v mem => holes p v (mem_cons_of_mem _ mem)
    refine ⟨code', ?_, done⟩
    rw [foldlM_cons]
    show (writeU32 code (o + k) value).bind _ = _
    rw [writes]
    exact rest

end

/-! ### What linking writes -/

/-- What linking writes for symbols. -/
def LinkData.symbols (link : LinkData) : List (Nat × Nat) :=
  (link.symbolic.toList.take Symbol.count |>.mapIdx fun number places =>
    places.toList.map fun place => (place, number)).flatten

theorem LinkData.mem_symbols {link : LinkData} (count : link.symbolic.size = Symbol.count)
    {p v : Nat} :
    (p, v) ∈ link.symbols ↔ ∃ symbol : Symbol, p ∈ link.symbolic.getD symbol.number #[] ∧
      v = symbol.number := by
  have whole : link.symbolic.toList.take Symbol.count = link.symbolic.toList := by
    rw [take_of_length_le]
    simp [count]
  rw [LinkData.symbols, whole, mem_flatten]
  constructor
  · rintro ⟨places, mem, there⟩
    obtain ⟨n, lt, is⟩ := mem_mapIdx.1 mem
    subst is
    obtain ⟨place, there, is⟩ := List.mem_map.1 there
    cases is
    have lt : v < link.symbolic.size := by simpa using lt
    obtain ⟨symbol, is⟩ := Symbol.exists_number (by rw [← count]; exact lt)
    refine ⟨symbol, ?_, is.symm⟩
    rw [is, Array.getD_eq_getD_getElem?, Array.getElem?_eq_getElem lt]
    simpa using there
  · rintro ⟨symbol, there, rfl⟩
    have lt : symbol.number < link.symbolic.size := by rw [count]; exact symbol.number_lt
    rw [Array.getD_eq_getD_getElem?, Array.getElem?_eq_getElem lt] at there
    refine ⟨_, mem_mapIdx.2 ⟨symbol.number, by simpa using lt, rfl⟩, List.mem_map.2 ⟨p, ?_, rfl⟩⟩
    simpa using there

theorem LinkData.mem_patches {link : LinkData} (count : link.symbolic.size = Symbol.count)
    {p v : Nat} :
    (p, v) ∈ link.patches ↔ ⟨p, v⟩ ∈ link.internal ∨
      ∃ symbol : Symbol, p ∈ link.symbolic.getD symbol.number #[] ∧ v = symbol.number := by
  rw [← LinkData.mem_symbols count, LinkData.patches, mem_append]
  refine or_congr ?_ Iff.rfl
  rw [List.mem_map]
  constructor
  · rintro ⟨⟨patchAt, target⟩, mem, is⟩
    cases is
    simpa using mem
  · intro mem
    exact ⟨⟨p, v⟩, by simpa using mem, rfl⟩

/-- Code in which all holes are filled. -/
structure Linked (code : ByteArray) (reach : Nat) (pieces : List Piece) (filled : Nat → Option Nat)
    (stubs : StubOffsets) : Prop where
  code : Assembles code (linesOf pieces) filled
  stubs : ∀ o line place kind, (o, line) ∈ located 0 (linesOf pieces) →
    line.instr.stub? = some (place, kind) → filled (o + place) = some (stubs.get kind)
  symbols : ∀ o line symbol, (o, line) ∈ located 0 (linesOf pieces) → line.symbol = some symbol →
    filled (o + Chunk.firstOperand) = some symbol.number
  fars : ∀ callee s, FarJump pieces callee s →
    ∃ entry, filled (s + Chunk.firstOperand) = some entry ∧ Enters pieces callee entry
  calls : ∀ o line callee bytecode, (o, line) ∈ located 0 (linesOf pieces) →
    line.calls = some (callee, bytecode) → ∃ target, Settled reach pieces filled o callee target

/-- The link of a far jump whose operand lies at `place`. -/
def Layout.farLink? (l : Layout) : Nat × Nat → Option InternalLink
  | (place, callee) => (l.entry? callee).map fun entry => ⟨place, entry⟩

/-- The links of a layout: those to stubs, and those of far jumps to their functions. -/
structure Links (l : Layout) (pieces : List Piece) (stubs : StubOffsets) : Prop where
  internal : l.link.internal.toList =
    ((located 0 (linesOf pieces)).filterMap stubRef?).map
      (fun (place, kind) => ⟨place, stubs.get kind⟩) ++
      ((sited 0 pieces).filterMap farRef?).filterMap l.farLink?
  placed : ∀ callee s, FarJump pieces callee s → (l.entry? callee).isSome

/-- The three kinds of numbers that linking writes. -/
inductive Writes (l : Layout) (pieces : List Piece) (stubs : StubOffsets) (o : Nat) (line : Line) :
    (hole value : Nat) → Prop
  | stub (place kind) : line.instr.stub? = some (place, kind) →
      Writes l pieces stubs o line place (stubs.get kind)
  | symbol (symbol) : line.symbol = some symbol → line.Plain →
      Writes l pieces stubs o line Chunk.firstOperand symbol.number
  | far (callee entry) : FarJump pieces callee o → l.entry? callee = some entry →
      Writes l pieces stubs o line Chunk.firstOperand entry

section
variable {l : Layout} {pieces : List Piece} {filled : Nat → Option Nat} {stubs : StubOffsets}
  {o p v callee place k v' i : Nat}
  {line : Line} {patches : List (Nat × Nat)} {waiting : List PendingCall} {lines : List Line}
  {kind : StubKind} {code : ByteArray}

theorem FarJump.there {s : Nat} (h : FarJump pieces callee s) :
    (s, { instr := .jumpFar unlinked }) ∈ located 0 (linesOf pieces) :=
  located_of_sited h (mem_singleton.2 rfl)

theorem FarJump.isFar (h : FarJump pieces callee o) (mem : (o, line) ∈ located 0 (linesOf pieces)) :
    line = { instr := .jumpFar unlinked } :=
  located_eq mem h.there

theorem Line.at_far {entry : Nat} (is : filled (o + Chunk.firstOperand) = some entry) :
    Line.at { instr := .jumpFar unlinked } o filled = .jumpFar entry := by
  show Instr.jumpFar ((filled (o + Chunk.firstOperand)).getD unlinked) = _
  rw [is]
  rfl

/-- The far jump at a place leads to one function. -/
theorem FarJump.unique {callee' s : Nat} (h : FarJump pieces callee s)
    (h' : FarJump pieces callee' s) : callee = callee' := by
  have same := sited_unique h h' (by simp [Piece.far]) (by simp [Piece.far])
  simpa [Piece.far] using same

theorem Instr.stub_place {i : Instr} (is : i.stub? = some (place, kind)) :
    place ≠ Chunk.firstOperand := by
  cases i <;> simp_all [Instr.stub?, Chunk.firstOperand] <;> omega

theorem mem_stubRefs : (place, kind) ∈ (located 0 (linesOf pieces)).filterMap stubRef? ↔
    ∃ o line k, (o, line) ∈ located 0 (linesOf pieces) ∧ line.instr.stub? = some (k, kind) ∧
      place = o + k := by
  rw [mem_filterMap]
  constructor
  · rintro ⟨⟨o, line⟩, there, is⟩
    obtain ⟨⟨k, kind'⟩, is, eq⟩ := map_eq_some_iff.1 is
    cases eq
    exact ⟨o, line, k, there, is, rfl⟩
  · rintro ⟨o, line, k, there, is, rfl⟩
    exact ⟨(o, line), there, by simp [stubRef?, is]⟩

theorem mem_farRefs (sound : ∀ p ∈ pieces, p.Sound) :
    (place, callee) ∈ (sited 0 pieces).filterMap farRef? ↔ ∃ s, FarJump pieces callee s ∧
      place = s + Chunk.firstOperand := by
  rw [mem_filterMap]
  constructor
  · rintro ⟨⟨s, p⟩, mem, is⟩
    rcases sound p (mem_of_sited mem) with ⟨callee', rfl⟩ | ⟨near, _⟩
    · cases is
      exact ⟨s, mem, rfl⟩
    · rw [farRef?_eq_none near] at is
      cases is
  · rintro ⟨s, far, rfl⟩
    exact ⟨(s, Piece.far callee), far, rfl⟩

theorem Laid.mem_symbols (h : Laid l pieces filled waiting) {symbol : Symbol} :
    p ∈ l.link.symbolic.getD symbol.number #[] ↔ ∃ o line, (o, line) ∈ located 0 (linesOf pieces) ∧
      line.symbol = some symbol ∧
      p = o + Chunk.firstOperand := by
  rw [← Array.mem_toList_iff, h.symbols.2, mem_filterMap]
  simp only [symbolPlace?, Prod.exists, ite_none_right_eq_some, Option.some.injEq, @eq_comm _ _ p]

theorem Writes.hole (h : Writes l pieces stubs o line k v)
    (there : (o, line) ∈ located 0 (linesOf pieces)) :
    k ∈ line.instr.holes := by
  rw [mem_holes]
  cases h with
  | stub place kind is => exact .inr ⟨kind, is⟩
  | symbol symbol is plain =>
    have := plain.symbol
    rw [is] at this
    exact .inl ⟨rfl, .inr (.inl this.symm)⟩
  | far callee entry far is =>
    cases far.isFar there
    exact .inl ⟨rfl, .inr (.inr rfl)⟩

theorem Writes.unique (h : Writes l pieces stubs o line k v)
    (h' : Writes l pieces stubs o line k v')
    (there : (o, line) ∈ located 0 (linesOf pieces)) : v = v' := by
  cases h with
  | stub place kind is =>
    cases h' with
    | stub place kind is' =>
      rw [is] at is'
      cases is'
      rfl
    | symbol symbol is' plain => exact absurd rfl (stub_place is)
    | far callee entry far is' => exact absurd rfl (stub_place is)
  | symbol symbol is plain =>
    cases h' with
    | stub place kind is' => exact absurd rfl (stub_place is')
    | symbol symbol is' plain' =>
      rw [is] at is'
      cases is'
      rfl
    | far callee entry far is' =>
      cases far.isFar there
      cases is
  | far callee entry far is =>
    cases h' with
    | stub place kind is' => exact absurd rfl (stub_place is')
    | symbol symbol is' plain' =>
      cases far.isFar there
      cases is'
    | far callee' entry' far' is' =>
      cases far.unique far'
      rw [is] at is'
      cases is'
      rfl

/-- The place of a hole tells the line and the hole. -/
theorem hole_unique {o' k' : Nat} {line' : Line} (there : (o, line) ∈ located 0 lines)
    (there' : (o', line') ∈ located 0 lines)
    (hole : k ∈ line.instr.holes) (hole' : k' ∈ line'.instr.holes) (same : o + k = o' + k') :
    o = o' ∧ line = line' ∧ k = k' := by
  have inside := hole_le hole
  have inside' := hole_le hole'
  obtain ⟨rfl, rfl⟩ :=
    located_unique there there' (by simp only [Line.size]; omega) (by simp only [Line.size]; omega)
  exact ⟨rfl, rfl, by omega⟩

/-- Nothing is linked at the displacement of a call. -/
theorem Writes.not_call (h : Writes l pieces stubs o line Chunk.firstOperand v)
    (there : (o, line) ∈ located 0 (linesOf pieces)) :
    line.calls = none := by
  cases h with
  | stub place kind is => exact absurd rfl (stub_place is)
  | symbol symbol is plain =>
    have isCall := plain.calls
    have hasSymbol := plain.symbol
    rw [is] at hasSymbol
    cases i : line.instr <;> simp_all [Instr.isCall, Instr.hasSymbol]
  | far callee entry far is =>
    cases far.isFar there
    rfl

/-! ### Places that linking writes -/

/-- Four bytes at one place and four at the other have none in common. -/
def WordsApart (p q : Nat) : Prop := p + 4 ≤ q ∨ q + 4 ≤ p

theorem Instr.holes_apart {i : Instr} {k' : Nat} (hole : k ∈ i.holes) (hole' : k' ∈ i.holes)
    (other : k ≠ k') :
    k + 4 ≤ k' ∨ k' + 4 ≤ k := by
  cases i <;> simp only [holes, mem_cons, not_mem_nil, or_false] at hole hole' <;> omega

theorem holes_apart {o' k' : Nat} {line' : Line} (there : (o, line) ∈ located 0 lines)
    (there' : (o', line') ∈ located 0 lines)
    (hole : k ∈ line.instr.holes) (hole' : k' ∈ line'.instr.holes) (other : o + k ≠ o' + k') :
    WordsApart (o + k) (o' + k') := by
  have inside := hole_le hole
  have inside' := hole_le hole'
  unfold WordsApart
  by_cases same : o = o'
  · subst same
    cases located_eq there there'
    have := Instr.holes_apart hole hole' (by omega)
    omega
  · have overlap : o' < o + line.size → ¬ o < o' + line'.size := fun before after =>
      same (located_unique there there' before after).1
    simp only [Line.size] at overlap
    omega

/-- The numbers of symbols are written at different places. -/
theorem Laid.symbols_distinct (h : Laid l pieces filled waiting) :
    l.link.symbols.Pairwise fun a b => a.1 ≠ b.1 := by
  have other : ∀ {a b : Nat × Nat}, a ∈ l.link.symbols → b ∈ l.link.symbols → a.2 ≠ b.2 →
      a.1 ≠ b.1 := by
    rintro ⟨p, v⟩ ⟨p', v'⟩ mem mem' other same
    obtain ⟨symbol, there, is⟩ := (LinkData.mem_symbols h.symbols.1).1 mem
    obtain ⟨symbol', there', is'⟩ := (LinkData.mem_symbols h.symbols.1).1 mem'
    obtain ⟨o, line, at', named, rfl⟩ := h.mem_symbols.1 there
    obtain ⟨o', line', at'', named', same'⟩ := h.mem_symbols.1 there'
    have eq : o = o' := Nat.add_right_cancel (same.trans same')
    subst eq
    rw [located_eq at' at'', named'] at named
    cases named
    exact other (is.trans is'.symm)
  refine pairwise_flatten.2 ⟨?_, ?_⟩
  · intro places mem
    obtain ⟨n, lt, rfl⟩ := mem_mapIdx.1 mem
    have lt : n < l.link.symbolic.size := by simpa [h.symbols.1] using lt
    obtain ⟨symbol, rfl⟩ := Symbol.exists_number (by rw [← h.symbols.1]; exact lt)
    have listed := h.symbols.2 symbol
    rw [Array.getD_eq_getD_getElem?, Array.getElem?_eq_getElem lt] at listed
    rw [pairwise_map]
    simp only [getElem_take, Array.getElem_toList]
    rw [show l.link.symbolic[symbol.number].toList = _ from listed]
    refine List.Pairwise.filterMap _ ?_ (located_order _ 0)
    rintro ⟨o, line⟩ ⟨o', line'⟩ le p is p' is'
    have le : o + line.size ≤ o' := le
    have := line.size_pos
    simp only [symbolPlace?, ite_none_right_eq_some, Option.some.injEq] at is is'
    omega
  · rw [pairwise_iff_getElem]
    intro i j inside inside' lt a mem b mem'
    refine other (mem_flatten.2 ⟨_, getElem_mem inside, mem⟩)
      (mem_flatten.2 ⟨_, getElem_mem inside', mem'⟩) ?_
    simp only [getElem_mapIdx, List.mem_map] at mem mem'
    obtain ⟨_, _, rfl⟩ := mem
    obtain ⟨_, _, rfl⟩ := mem'
    exact Nat.ne_of_lt lt

section
variable (h : Laid l pieces filled []) (links : Links l pieces stubs)
include h links

theorem Laid.mem_patches : (p, v) ∈ l.link.patches ↔
      ∃ o line k, (o, line) ∈ located 0 (linesOf pieces) ∧ p = o + k ∧
        Writes l pieces stubs o line k v := by
  rw [LinkData.mem_patches h.symbols.1, ← Array.mem_toList_iff, links.internal, mem_append,
    List.mem_map, mem_filterMap]
  constructor
  · rintro ((⟨⟨place, kind⟩, mem, eq⟩ | ⟨⟨place, callee⟩, mem, is⟩) | ⟨symbol, mem, rfl⟩)
    · cases eq
      obtain ⟨o, line, k, there, is, rfl⟩ := mem_stubRefs.1 mem
      exact ⟨o, line, k, there, rfl, .stub k kind is⟩
    · obtain ⟨entry, entered, eq⟩ := map_eq_some_iff.1 is
      cases eq
      obtain ⟨s, far, rfl⟩ := (mem_farRefs h.sound).1 mem
      exact ⟨s, _, _, far.there, rfl, .far callee v far entered⟩
    · obtain ⟨o, line, there, is, rfl⟩ := h.mem_symbols.1 mem
      exact ⟨o, line, _, there, rfl, .symbol symbol is (plain_of_symbol h.sound there is)⟩
  · rintro ⟨o, line, k, there, rfl, writes⟩
    cases writes with
    | stub place kind is => exact .inl (.inl ⟨_, mem_stubRefs.2 ⟨o, line, k, there, is, rfl⟩, rfl⟩)
    | symbol symbol is plain => exact .inr ⟨symbol, h.mem_symbols.2 ⟨o, line, there, is, rfl⟩, rfl⟩
    | far callee entry far is =>
      exact .inl (.inr ⟨(o + Chunk.firstOperand, callee), (mem_farRefs h.sound).2 ⟨o, far, rfl⟩,
        by simp [Layout.farLink?, is]⟩)

theorem Laid.patch_hole (mem : (p, v) ∈ l.link.patches) :
    ∃ o line k, (o, line) ∈ located 0 (linesOf pieces) ∧ k ∈ line.instr.holes ∧ p = o + k := by
  obtain ⟨o, line, k, there, rfl, writes⟩ := (h.mem_patches links).1 mem
  exact ⟨o, line, k, there, writes.hole there, rfl⟩

theorem Laid.patch_unique (mem : (p, v) ∈ l.link.patches) (mem' : (p, v') ∈ l.link.patches) :
    v = v' := by
  obtain ⟨o, line, k, there, rfl, writes⟩ := (h.mem_patches links).1 mem
  obtain ⟨o', line', k', there', same, writes'⟩ := (h.mem_patches links).1 mem'
  obtain ⟨rfl, rfl, rfl⟩ := hole_unique there there' (writes.hole there) (writes'.hole there') same
  exact writes.unique writes' there

/-- Linking fills the holes that are listed, and leaves the displacements of calls as they are. -/
theorem Laid.link_ok (small : l.code.size < UInt32.size)
    (all : Accounted l.reach pieces filled []) :
    ∃ code filled', l.link.link l.code = .ok code ∧ Linked code l.reach pieces filled' stubs := by
  obtain ⟨code, run, assembles⟩ := (h.code small).writeAll l.link.patches fun p v mem =>
    h.patch_hole links mem
  have holds : ∀ o line k v, (o, line) ∈ located 0 (linesOf pieces) →
      Writes l pieces stubs o line k v →
      written filled l.link.patches (o + k) = some v := by
    intro o line k v there writes
    have mem := (h.mem_patches links).2 ⟨o, line, k, there, rfl, writes⟩
    exact written_of_mem mem fun v' mem' => h.patch_unique links mem' mem
  refine ⟨code, written filled l.link.patches, run, assembles, ?_, ?_, ?_, ?_⟩
  · intro o line place kind there is
    exact holds o line place _ there (.stub place kind is)
  · intro o line symbol there is
    exact holds o line _ _ there (.symbol symbol is (plain_of_symbol h.sound there is))
  · intro callee s far
    obtain ⟨entry, is⟩ := isSome_iff_exists.1 (links.placed callee s far)
    exact ⟨entry, holds s _ _ _ far.there (.far callee entry far is), h.entries callee entry is⟩
  · intro o line callee bytecode there calls
    rcases all o line callee bytecode there calls with none' | ⟨target, done⟩
    · cases none'
    refine ⟨target, { done with written := ?_ }⟩
    rw [written_of_not_mem, done.written]
    intro v mem
    obtain ⟨o', line', k', there', same, writes⟩ := (h.mem_patches links).1 mem
    obtain ⟨rfl, rfl, rfl⟩ :=
      hole_unique there there' (h.calls_hole there calls) (writes.hole there') same
    rw [writes.not_call there] at calls
    cases calls

/-- Linking writes no place twice. -/
theorem Laid.patches_distinct : l.link.patches.Pairwise fun a b => a.1 ≠ b.1 := by
  have stubs' : ∀ x ∈ (located 0 (linesOf pieces)).filterMap stubRef?, ∃ o line k,
      (o, line) ∈ located 0 (linesOf pieces) ∧ k ∈ line.instr.holes ∧ k ≠ Chunk.firstOperand ∧
        x.1 = o + k := by
    rintro ⟨place, kind⟩ mem
    obtain ⟨o, line, k, there, is, rfl⟩ := mem_stubRefs.1 mem
    exact ⟨o, line, k, there, mem_holes.2 (.inr ⟨kind, is⟩), stub_place is, rfl⟩
  have fars : ∀ x ∈ ((sited 0 pieces).filterMap farRef?).filterMap l.farLink?,
      ∃ s callee, FarJump pieces callee s ∧
      x.patchAt = s + Chunk.firstOperand := by
    intro x mem
    obtain ⟨⟨place, callee⟩, ref, is⟩ := mem_filterMap.1 mem
    obtain ⟨entry, _, rfl⟩ := map_eq_some_iff.1 is
    obtain ⟨s, far, rfl⟩ := (mem_farRefs h.sound).1 ref
    exact ⟨s, callee, far, rfl⟩
  have symbols : ∀ x ∈ l.link.symbols, ∃ o line symbol, (o, line) ∈ located 0 (linesOf pieces) ∧
      line.symbol = some symbol ∧
      x.1 = o + Chunk.firstOperand := by
    rintro ⟨p, v⟩ mem
    obtain ⟨symbol, listed, _⟩ := (LinkData.mem_symbols h.symbols.1).1 mem
    obtain ⟨o, line, there, is, rfl⟩ := h.mem_symbols.1 listed
    exact ⟨o, line, symbol, there, is, rfl⟩
  show (List.map _ l.link.internal.toList ++ l.link.symbols).Pairwise _
  rw [links.internal, map_append, append_assoc, List.map_map]
  refine pairwise_append.2 ⟨?_, pairwise_append.2 ⟨?_, h.symbols_distinct, ?_⟩, ?_⟩
  · rw [pairwise_map]
    refine List.Pairwise.filterMap stubRef? ?_ (located_order _ 0)
    rintro ⟨o, line⟩ ⟨o', line'⟩ le _ is _ is'
    obtain ⟨⟨k, kind⟩, stub, rfl⟩ := map_eq_some_iff.1 is
    obtain ⟨⟨k', kind'⟩, _, rfl⟩ := map_eq_some_iff.1 is'
    have inside : 0 < k ∧ k + 4 ≤ line.size := hole_le (mem_holes.2 (.inr ⟨kind, stub⟩))
    have le : o + line.size ≤ o' := le
    show o + k ≠ o' + k'
    omega
  · have far : ∀ {s place callee : Nat} {p : Piece}, (s, p) ∈ sited 0 pieces →
        farRef? (s, p) = some (place, callee) →
        0 < p.size ∧ place = s + Chunk.firstOperand := by
      intro s place callee p mem ref
      rcases h.sound p (mem_of_sited mem) with ⟨callee', rfl⟩ | ⟨near, _⟩
      · cases ref
        exact ⟨Nat.zero_lt_succ 4, rfl⟩
      · rw [farRef?_eq_none near] at ref
        cases ref
    rw [pairwise_map, pairwise_filterMap, pairwise_filterMap]
    refine (sited_order pieces 0).imp_of_mem ?_
    rintro ⟨s, p⟩ ⟨s', p'⟩ mem mem' le ⟨place, callee⟩ ref ⟨place', callee'⟩ ref' _ is _ is'
    obtain ⟨_, _, rfl⟩ := map_eq_some_iff.1 is
    obtain ⟨_, _, rfl⟩ := map_eq_some_iff.1 is'
    have ⟨some', at'⟩ := far mem ref
    have ⟨_, at''⟩ := far mem' ref'
    have le : s + p.size ≤ s' := le
    show place ≠ place'
    omega
  -- a far jump names no symbol
  · rintro _ mem b mem' same
    obtain ⟨link, listed, rfl⟩ := List.mem_map.1 mem
    obtain ⟨s, callee, far, at'⟩ := fars link listed
    obtain ⟨o, line, symbol, there, is, at''⟩ := symbols b mem'
    have same : s = o := by have : link.patchAt = b.1 := same; omega
    subst same
    cases far.isFar there
    cases is
  -- stubs are not the first operand
  · rintro _ mem b mem' same
    obtain ⟨ref, listed, rfl⟩ := List.mem_map.1 mem
    obtain ⟨o, line, k, there, hole, late, at'⟩ := stubs' ref listed
    have first : ∃ o' line', (o', line') ∈ located 0 (linesOf pieces) ∧
        Chunk.firstOperand ∈ line'.instr.holes ∧
        b.1 = o' + Chunk.firstOperand := by
      rcases mem_append.1 mem' with mem' | mem'
      · obtain ⟨link, listed', rfl⟩ := List.mem_map.1 mem'
        obtain ⟨s, callee, far, at''⟩ := fars link listed'
        exact ⟨s, _, far.there, mem_singleton.2 rfl, at''⟩
      · obtain ⟨o', line', symbol, there', is, at''⟩ := symbols b mem'
        refine ⟨o', line', there', ?_, at''⟩
        have has := (plain_of_symbol h.sound there' is).symbol
        rw [is] at has
        exact mem_holes.2 (.inl ⟨rfl, .inr (.inl has.symm)⟩)
    obtain ⟨o', line', there', hole', at''⟩ := first
    exact late (hole_unique there there' hole hole' (at'.symm.trans (same.trans at''))).2.2

theorem Laid.patches_apart : l.link.patches.Pairwise fun a b => WordsApart a.1 b.1 := by
  refine (h.patches_distinct links).imp_of_mem ?_
  rintro ⟨p, v⟩ ⟨p', v'⟩ mem mem' other
  obtain ⟨o, line, k, there, hole, rfl⟩ := h.patch_hole links mem
  obtain ⟨o', line', k', there', hole', rfl⟩ := h.patch_hole links mem'
  exact holes_apart there there' hole hole' other

/-- The order in which numbers are written does not matter. -/
theorem Laid.link_perm (small : l.code.size < UInt32.size) (perm : patches.Perm l.link.patches) :
    patches.foldlM (fun code (place, value) => writeU32 code place value) l.code =
      l.link.link l.code := by
  obtain ⟨code, run, assembles⟩ := (h.code small).writeAll l.link.patches fun p v mem =>
    h.patch_hole links mem
  obtain ⟨code', run', assembles'⟩ := (h.code small).writeAll patches fun p v mem =>
    h.patch_hole links (perm.subset mem)
  have same : written filled patches = written filled l.link.patches := by
    funext p
    by_cases listed : ∃ v, (p, v) ∈ l.link.patches
    · obtain ⟨v, mem⟩ := listed
      rw [written_of_mem mem fun v' mem' => h.patch_unique links mem' mem,
        written_of_mem (perm.mem_iff.2 mem) fun v' mem' =>
          h.patch_unique links (perm.subset mem') mem]
    · rw [written_of_not_mem fun v mem => listed ⟨v, mem⟩,
        written_of_not_mem fun v mem => listed ⟨v, perm.subset mem⟩]
  rw [same, Assembles, ← assembles] at assembles'
  rw [run', LinkData.link, run, ByteArray.ext (Array.toList_inj.1 assembles')]

end

theorem overwrite_outside {bytes : List UInt8} {pos : Nat}
    (out : i < pos ∨ pos + bytes.length ≤ i) :
    (overwrite code pos bytes).data[i]? = code.data[i]? := by
  induction bytes generalizing code pos with
  | nil => rfl
  | cons b bytes ih =>
    rw [length_cons] at out
    rw [overwrite, ih (by omega)]
    exact Array.getElem?_setIfInBounds_ne (by omega)

/-- Linking changes only what it writes. -/
theorem link_outside {code' : ByteArray}
    (run : patches.foldlM (fun code (place, value) => writeU32 code place value) code = .ok code')
    (out : ∀ x ∈ patches, i < x.1 ∨ x.1 + 4 ≤ i) : code'.data[i]? = code.data[i]? := by
  induction patches generalizing code with
  | nil =>
    cases run
    rfl
  | cons patch patches ih =>
    obtain ⟨place, value⟩ := patch
    rw [foldlM_cons] at run
    obtain ⟨code₁, write, run⟩ := Steps.except_ok run
    rw [ih run fun x mem => out x (mem_cons_of_mem _ mem)]
    have write : writeU32 code place value = .ok code₁ := write
    unfold writeU32 at write
    split at write
    · cases write
      exact overwrite_outside (out (place, value) mem_cons_self)
    · cases write

end
end Wasmill.Code

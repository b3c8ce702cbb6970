import Wasmill.Proofs.Generator.Whole
import Wasmill.Proofs.Machine.Fetching

/-! Ranges tile the code.

Whatever was asked of a generator, its ranges are the pieces that were placed, one after another, so
that every offset of the code of a finished module has one range, which the search in its table
finds. -/
namespace Wasmill
open Code Steps List
variable {pieces : List Piece} {pc : Nat}

namespace Code
variable {log : Array (Nat × Ssa.Function)} {p : Piece} {s : Nat}

/-- The ranges lie one after another from `start` to `stop`, and none is empty. -/
def Range.Tile (start stop : Nat) : List Range → Prop
  | [] => start = stop
  | r :: rest => r.start = start ∧ start < r.stop ∧ Tile r.stop stop rest

/-- No piece is empty. -/
theorem Origin.size_pos (h : Origin log s p) : 0 < p.size := by
  have pos : ∀ (kind : RangeKind) (line : Line) (rest : List Line),
      0 < Piece.size ⟨kind, line :: rest⟩ := by
    intro kind line rest
    have := line.size_pos
    unfold Piece.size
    rw [extent_cons]
    omega
  cases h with
  | function logged small lowered =>
    obtain ⟨place, lowering⟩ := Lower.lines_ok lowered
    obtain ⟨rest, rfl⟩ := lowering.head
    exact pos _ _ _
  | _ => exact pos _ _ _

/-- Only bodies of functions have lines that are blamed on an operator. -/
theorem Origin.traps (h : Origin log s p) {line : Line} (mem : line ∈ p.lines)
    (traps : line.traps.isSome) : p.func?.isSome := by
  cases h with
  | function => rfl
  | _ =>
    simp only [Chunk.entryLines, Chunk.interpLines, Chunk.jitLines, Chunk.exitLines,
      Chunk.trapLines, Chunk.throwLines,
      Piece.far, mem_cons, not_mem_nil, or_false] at mem
    obtain rfl | rfl | rfl := mem <;> cases traps

theorem tile_sited (start : Nat) (some' : ∀ p ∈ pieces, 0 < p.size) :
    Range.Tile start (start + extent (linesOf pieces))
      ((sited start pieces).map fun (s, p) => p.range s) := by
  induction pieces generalizing start with
  | nil => exact (Nat.add_zero start).symm
  | cons p pieces ih =>
    have rest := ih (start + p.size) fun q mem => some' q (mem_cons_of_mem p mem)
    rw [Nat.add_assoc] at rest
    rw [linesOf_cons, extent_append]
    exact ⟨rfl, Nat.lt_add_of_pos_right (some' p mem_cons_self), rest⟩

/-- Every offset lies in a piece. -/
theorem sited_covers {start : Nat} (low : start ≤ pc)
    (high : pc < start + extent (linesOf pieces)) :
    ∃ s p, (s, p) ∈ sited start pieces ∧ s ≤ pc ∧ pc < s + p.size := by
  induction pieces generalizing start with
  | nil => exact absurd high (Nat.not_lt.2 low)
  | cons p pieces ih =>
    rw [linesOf_cons, extent_append] at high
    by_cases here : pc < start + p.size
    · exact ⟨start, p, mem_cons_self, low, here⟩
    · obtain ⟨s, q, there, inside⟩ := ih (Nat.not_lt.1 here) (by unfold Piece.size; omega)
      exact ⟨s, q, mem_cons_of_mem _ there, inside⟩

end Code

/-- Looking up an offset finds the range that holds it. -/
theorem Module.Lists.rangeAt?_iff {m : Module} (h : m.Lists pieces) {r : Range} :
    m.rangeAt? pc = some r ↔ r ∈ m.ranges.toList ∧ r.contains pc = true := by
  constructor
  · intro is
    obtain ⟨there, holds⟩ := Option.filter_eq_some_iff.1 is
    exact ⟨mem_toList_of_at there, holds⟩
  · rintro ⟨mem, holds⟩
    rw [h.ranges] at mem
    obtain ⟨⟨s, p⟩, there, rfl⟩ := mem_map.1 mem
    obtain ⟨low, high⟩ := Bool.and_eq_true_iff.1 holds
    exact h.rangeAt? there (of_decide_eq_true low) (of_decide_eq_true high)

namespace Generator
variable {g : Generator} {pieces : List Piece} {filled : Nat → Option Nat}

theorem Consistent.lists {whole : Prop} {waiting : List CompileTask}
    (h : Consistent whole g waiting pieces filled) (stubs : StubOffsets) :
    (Gen.module g stubs).Lists pieces := ⟨h.sound.laid.ranges, h.sound.laid.trapSites⟩

theorem leads_finished :
    Leads Gen.finishCodegen g (fun _ g' => g'.stubs.isSome) fun _ _ => True := by
  unfold Gen.finishCodegen
  rw [leads_bind, leads_get, leads_ite, leads_pure]
  split
  · assumption
  have skip {α : Type} {x : Gen α} {f : α → Gen Unit} {g : Generator}
      (rest : ∀ a g', Leads (f a) g' (fun _ g' => g'.stubs.isSome) fun _ _ => True) :
      Leads (x >>= f) g (fun _ g' => g'.stubs.isSome) fun _ _ => True :=
        leads_any.bind fun a g' _ => rest a g'
  refine skip fun _ _ => skip fun _ _ => skip fun _ _ => skip fun _ _ => skip fun _ _ =>
    skip fun _ _ => ?_
  refine skip fun _ _ => skip fun _ _ => skip fun _ _ => skip fun _ _ => skip fun _ _ =>
    skip fun _ _ => ?_
  exact skip fun _ _ => skip fun _ _ => skip fun _ _ => leads_modify.2 rfl

/-- Finishing, after whatever history. -/
theorem Grown.finish (h : Grown False g pieces filled) : Leads Gen.finish g
      (fun m g' => ∃ pieces' filled' stubs,
        Grown False g' pieces' filled' ∧ g'.layout.code.size < UInt32.size ∧
        m = Gen.module g' stubs) (fun _ _ => True) := by
  unfold Gen.finish
  rw [leads_bind]
  refine (leads_finished.and (h.perform .finishCodegen)).imp ?_ fun _ _ _ => trivial
  rintro _ g' ⟨finished, pieces', filled', grown, _⟩
  rw [leads_bind, leads_get, leads_pure]
  exact ⟨pieces', filled', _, grown, (grown.kept.closed finished).1, rfl⟩

/-- The tables of a finished module describe its code, whatever history it has. -/
theorem finish_tiles {config : Config} {history : List Request} {m : Module}
    (finished : Gen.finish ((new config).after history) = (.ok m, g)) :
    Range.Tile 0 m.code.size m.ranges.toList ∧
    (∀ r ∈ m.ranges.toList, ∀ func bytecode entry,
      r.kind = .function func bytecode entry → entry = r.start + 5) ∧
    m.trapSites.toList.Pairwise (fun a b => a.code < b.code) ∧
    (∀ site ∈ m.trapSites.toList, ∃ r ∈ m.ranges.toList,
      r.func?.isSome ∧ r.contains site.code = true) ∧
    (∀ pc r, m.rangeAt? pc = some r ↔ r ∈ m.ranges.toList ∧ r.contains pc = true) ∧
    ∀ pc, (m.rangeAt? pc).isSome ↔ pc < m.code.size := by
  obtain ⟨_, _, grown⟩ := (grown_new False config).after history
  obtain ⟨pieces, filled, stubs, grown, small, rfl⟩ := grown.finish.ok finished
  have kept := grown.kept
  have lists := kept.lists stubs
  have size : (Gen.module g stubs).code.size = extent (linesOf pieces) := kept.sound.laid.size small
  refine ⟨?_, ?_, lists.order, ?_, fun pc r => lists.rangeAt?_iff,
    fun pc => ⟨fun found => ?_, fun inside => ?_⟩⟩
  · rw [lists.ranges, size, ← Nat.zero_add (extent _)]
    refine tile_sited 0 fun p mem => ?_
    obtain ⟨s, there⟩ := sited_of_mem 0 mem
    exact (kept.origin s p there).size_pos
  · intro r mem func bytecode entry is
    rw [lists.ranges] at mem
    obtain ⟨⟨s, p⟩, there, rfl⟩ := mem_map.1 mem
    cases kept.origin s p there with
    | function =>
      cases is
      rfl
    | _ => cases is
  · intro site mem
    rw [lists.trapSites] at mem
    obtain ⟨⟨o, line⟩, located, is⟩ := mem_filterMap.1 mem
    obtain ⟨b, traps, rfl⟩ := Option.map_eq_some_iff.1 is
    obtain ⟨s, p, there, inside⟩ := sited_of_located located
    have ⟨low, high⟩ := located_le inside
    have := line.size_pos
    refine ⟨p.range s, ?_,
      (kept.origin s p there).traps (mem_of_located inside) (by rw [traps]; rfl), ?_⟩
    · rw [lists.ranges]
      exact mem_map.2 ⟨(s, p), there, rfl⟩
    · exact Bool.and_eq_true_iff.2 ⟨decide_eq_true low,
        decide_eq_true (by show o < s + extent p.lines; omega)⟩
  · obtain ⟨r, is⟩ := Option.isSome_iff_exists.1 found
    obtain ⟨mem, holds⟩ := lists.rangeAt?_iff.1 is
    rw [lists.ranges] at mem
    obtain ⟨⟨s, p⟩, there, rfl⟩ := mem_map.1 mem
    have high : pc < s + p.size := of_decide_eq_true (Bool.and_eq_true_iff.1 holds).2
    have := (sited_le there).2
    rw [size]
    omega
  · rw [size] at inside
    obtain ⟨s, p, there, low, high⟩ :=
      sited_covers (Nat.zero_le pc) (by omega : pc < 0 + extent (linesOf pieces))
    rw [lists.rangeAt? there low high]
    rfl

/-- A module with a far jump, after a declaration that failed. -/
theorem finish_tiles_callPair :
    ∃ m g, Gen.finish ((new { maxBranchRange := 64 }).after callPair) = (.ok m, g) ∧
    Range.Tile 0 m.code.size m.ranges.toList ∧ m.trapSites.toList.Pairwise
      (fun a b => a.code < b.code) ∧
    (∃ site ∈ m.trapSites.toList, ∃ r ∈ m.ranges.toList,
      r.func?.isSome ∧ r.contains site.code = true) ∧
    (m.rangeAt? 0).isSome ∧ (m.rangeAt? m.code.size).isSome = false := by
  obtain ⟨m, g, is, shown⟩ := finished_of { maxBranchRange := 64 } callPair
    (fun m => decide (0 < m.code.size) && !m.trapSites.isEmpty) (by decide +kernel)
  obtain ⟨some', sites⟩ := Bool.and_eq_true_iff.1 shown
  obtain ⟨tile, _, order, bodies, _, inside⟩ := finish_tiles is
  obtain ⟨site, mem⟩ : ∃ site, site ∈ m.trapSites.toList := by
    refine exists_mem_of_ne_nil _ ?_
    simpa using sites
  refine ⟨m, g, is, tile, order, ⟨site, mem, bodies site mem⟩,
    (inside 0).2 (of_decide_eq_true some'), ?_⟩
  exact Bool.eq_false_iff.2 fun found => Nat.lt_irrefl _ ((inside _).1 found)

end Generator
end Wasmill

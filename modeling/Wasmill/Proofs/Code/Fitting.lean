import Wasmill.Proofs.Code.Linking
import Wasmill.Proofs.Code.Lowering
import Wasmill.Proofs.Fits
import Wasmill.Proofs.Ssa.Compiled

/-! Placing code keeps all numbers in 32 bits.

Offsets are bounded by the size of the code, and everything else that lines say comes from the
declarations. -/
namespace Wasmill.Code
open Steps List Option Line
variable {func sigs : Nat}

/-! ### Lines -/

/-- The numbers that a line says something with. -/
structure Line.Fits (sigs : Nat) (line : Line) : Prop where
  traps : ∀ bytecode, line.traps = some bytecode → bytecode < UInt32.size
  calls : ∀ callee bytecode, line.calls = some (callee, bytecode) →
    callee < UInt32.size ∧ bytecode < UInt32.size
  expects : ∀ sig, line.expects = some sig → sig < sigs

/-- A line that says nothing. -/
theorem Line.fits_of_silent {line : Line} (traps : line.traps = none) (calls : line.calls = none)
    (expects : line.expects = none) : line.Fits sigs :=
  ⟨by simp [traps], by simp [calls], by simp [expects]⟩

/-- A line that may trap. -/
theorem Line.fits_of_traps {bytecode : Nat} {line : Line} (small : bytecode < UInt32.size)
    (traps : line.traps = some bytecode ∨ line.traps = none) (calls : line.calls = none)
    (expects : line.expects = none) :
    line.Fits sigs := by
  refine ⟨fun b is => ?_, by simp [calls], by simp [expects]⟩
  rcases traps with traps | traps <;> rw [traps] at is <;> cases is
  exact small

namespace Lower
variable {env : Env} {f : Ssa.Function} {line : Line}

theorem step_fits {s : Ssa.Step} (proper : s.inst.Proper env) (small : s.srcloc < UInt32.size)
    (fits : env.Fits) :
    (step f s).Fits env.sigs.size := by
  unfold step
  cases is : s.inst with
  | call callee args =>
    rw [is] at proper
    refine ⟨by simp, fun callee' bytecode same => ?_, by simp⟩
    cases same
    exact ⟨Nat.lt_trans proper fits.funcCount, small⟩
  | callIndirect ty table token index args =>
    rw [is] at proper
    refine ⟨fun bytecode same => ?_, by simp, fun sig same => ?_⟩
    · cases same
      exact small
    · cases same
      exact proper
  | binary op a _ | convert op a =>
    refine fits_of_traps small ?_ rfl rfl
    show (if op.canTrap then some s.srcloc else none) = _ ∨
      (if op.canTrap then some s.srcloc else none) = none
    split
    · exact .inl rfl
    · exact .inr rfl
  | load _ _ _ | store _ _ _ _ | interruptCheck => exact fits_of_traps small (.inl rfl) rfl rfl
  | _ => exact fits_of_silent rfl rfl rfl

theorem blockExit_fits {rel : Nat → Int} {b : Ssa.Block} (proper : b.Proper env)
    (small : f.srcloc < UInt32.size) (is : blockExit f rel b = .ok line) : line.Fits sigs := by
  have ends := blockExit_ok is
  generalize left : b.leave = leave at ends
  cases ends with
  | unfilled => exact fits_of_traps small (.inl rfl) rfl rfl
  | trap => exact fits_of_traps (proper.leave _ left).2 (.inl rfl) rfl rfl
  | _ => exact fits_of_silent rfl rfl rfl

theorem lines_fit {lines : List Line} (proper : f.Proper env) (fits : env.Fits)
    (lowered : Lower.lines func f = .ok lines) : ∀ line ∈ lines, line.Fits env.sigs.size := by
  obtain ⟨place, lowering⟩ := lines_ok lowered
  refine lowering.forall ?_ (fun b known s mem =>
    ((proper.blocks b known).steps s mem).elim (step_fits · · fits))
    fun b known rel line exits => blockExit_fits (proper.blocks b known) proper.srcloc exits
  intro line mem
  simp only [head, mem_cons, not_mem_nil, or_false] at mem
  rcases mem with rfl | rfl
  · exact fits_of_silent rfl rfl rfl
  · exact fits_of_traps proper.srcloc (.inl rfl) rfl rfl

end Lower

/-- The chunk is made of lines that fit. -/
structure Chunk.Fits (sigs : Nat) (c : Chunk) : Prop where
  made : ∃ lines, c.MadeOf lines ∧ ∀ line ∈ lines, line.Fits sigs
  entry : c.entry ≤ c.code.size

theorem Chunk.ofFunction_fits {env : Env} {f : Ssa.Function} {c : Chunk} (proper : f.Proper env)
    (fits : env.Fits)
    (is : Chunk.ofFunction func f = .ok c) : c.Fits env.sigs.size := by
  obtain ⟨_, lines, lowered, rfl⟩ := Lower.ofFunction_ok is
  have made := Chunk.ofLines_madeOf lines
  refine ⟨⟨lines, { made with },
    Lower.lines_fit proper fits lowered⟩, ?_⟩
  obtain ⟨_, lowering⟩ := Lower.lines_ok lowered
  obtain ⟨rest, rfl⟩ := lowering.head
  show profilingEntrySize ≤ (Chunk.ofLines _).code.size
  rw [made.size, extent_append]
  exact Nat.le_trans (show profilingEntrySize ≤ profilingEntrySize + 9 by decide)
    (Nat.le_add_right (profilingEntrySize + 9) _)

/-! ### Layouts -/

structure Layout.Fits (sigs : Nat) (l : Layout) : Prop where
  ranges : ∀ r ∈ l.ranges.toList, r.kind.Fits ∧ r.start < UInt32.size ∧ r.stop ≤ l.code.size
  trapSites : ∀ s ∈ l.trapSites.toList, s.code < UInt32.size ∧ s.bytecode < UInt32.size
  callSites : ∀ s ∈ l.callSites.toList, s.returnsTo < UInt32.size ∧ s.bytecode < UInt32.size
  link : l.link.Fits
  indirectSigs : ∀ sig ∈ l.indirectSigs.toList, sig < sigs
  entries : ∀ func entry, l.entry? func = some entry → entry < UInt32.size
  pendingCalls : ∀ c ∈ l.pendingCalls.toList, c.callee < UInt32.size
  pendingStubs : ∀ s ∈ l.pendingStubs.toList, s.1 < UInt32.size
  thunkTargets : ∀ t ∈ l.thunkTargets.toList, t.1 < UInt32.size

section
variable {l l' : Layout} {sigs sigs' start : Nat} {kind : RangeKind}

theorem Layout.fits_new (reach sigs : Nat) : Layout.Fits sigs { reach := reach } := by
  refine ⟨by simp, by simp, by simp, ⟨by simp, ?_, by simp⟩, by simp, ?_, by simp, by simp, by simp⟩
  · intro places mem place there
    have mem : places ∈ (Array.replicate Symbol.count (#[] : Array Nat)).toList := mem
    rw [Array.toList_replicate] at mem
    rw [(mem_replicate.1 mem).2] at there
    cases there
  · intro func entry is
    simp [Layout.entry?] at is

section
variable (h : l.Fits sigs)
include h

theorem Layout.Fits.mono (more : sigs ≤ sigs') : l.Fits sigs' :=
  { h with indirectSigs := fun sig mem => Nat.lt_of_lt_of_le (h.indirectSigs sig mem) more }

theorem Layout.Fits.setEntry (func : Nat) {entry : Nat} (small : entry < UInt32.size) :
    (l.setEntry func entry).Fits sigs := by
  refine { h with entries := ?_ }
  intro func' entry' is
  rw [Laid.setEntry_entries] at is
  split at is
  · cases is
    exact small
  · exact h.entries func' entry' is

theorem Layout.Fits.grow {code : ByteArray} (longer : l.code.size ≤ code.size) :
    Layout.Fits sigs { l with code } :=
  { h with ranges := fun r mem => ⟨(h.ranges r mem).1, (h.ranges r mem).2.1,
    Nat.le_trans (h.ranges r mem).2.2 longer⟩ }

theorem Layout.Fits.push {kind : RangeKind} (fits : kind.Fits) {start : Nat}
    (small : start < UInt32.size) :
    ∀ r ∈ (l.ranges.push ⟨kind, start, l.code.size⟩).toList, r.kind.Fits ∧ r.start < UInt32.size ∧
      r.stop ≤ l.code.size := by
  intro r mem
  rcases mem_toList_push.1 mem with mem | rfl
  · exact h.ranges r mem
  · exact ⟨fits, small, Nat.le_refl _⟩

theorem Layout.Fits.addThunk {callee : Nat} (small : callee < UInt32.size) :
    Leads (Laying.addThunk callee) l (fun _ => Fits sigs) (fun _ => Fits sigs) := by
  have size : (Chunk.appendBytes l.code thunk).size = l.code.size + thunkSize :=
    Chunk.appendBytes_size
  have grown : Layout.Fits sigs { l with code := Chunk.appendBytes l.code thunk } :=
    h.grow (by omega)
  unfold Laying.addThunk
  rw [leads_bind, Laying.leads_codeEnd]
  split
  · rename_i start
    rw [leads_bind, leads_modify, leads_bind, Laying.leads_codeEnd]
    split
    · rename_i stop
      rw [leads_bind, leads_modify, leads_pure]
      refine { grown with ranges := grown.push (show RangeKind.Fits
        (.callThunk callee) from small) start, thunkTargets := ?_ }
      intro t mem
      rcases mem_toList_push.1 mem with mem | rfl
      · exact h.thunkTargets t mem
      · show l.code.size + Chunk.firstOperand < _
        have : Chunk.firstOperand ≤ thunkSize := by decide
        dsimp only at stop
        omega
    · exact grown
  · exact h

theorem Layout.Fits.directCall {thunks : List (Nat × Nat)} {call : PendingCall}
    (small : call.callee < UInt32.size) :
    Leads (Laying.directCall thunks call) l (fun _ => Fits sigs) (fun _ => Fits sigs) := by
  have found : Leads (Laying.target thunks call) l (fun _ => Fits sigs) (fun _ => Fits sigs) := by
    unfold Laying.target
    rw [leads_bind, leads_get]
    dsimp only
    split
    · exact leads_pure.2 h
    · split
      · exact leads_pure.2 h
      · exact leads_bind.2
          ((h.addThunk small).imp (fun _ _ fits => leads_pure.2 fits) fun _ _ fits => fits)
  unfold Laying.directCall
  refine leads_bind.2 (found.imp (fun r l₁ fits => ?_) fun _ _ fits => fits)
  dsimp only
  rw [leads_ite]
  split
  · exact leads_throw.2 fits
  rw [leads_bind, leads_get]
  unfold writeU32
  split
  · rename_i code written
    split at written <;> cases written
    rw [leads_bind, leads_set, leads_pure]
    exact fits.grow (Nat.le_of_eq (overwrite_size ..).symm)
  · exact leads_throw.2 fits

theorem Layout.Fits.directCalls {thunks : List (Nat × Nat)} {calls : List PendingCall}
    (small : ∀ c ∈ calls, c.callee < UInt32.size) :
    Leads (Laying.directCalls thunks calls) l (fun _ => Fits sigs) (fun _ => Fits sigs) := by
  induction calls generalizing l thunks with
  | nil => exact leads_pure.2 h
  | cons call calls ih =>
    refine leads_bind.2
      ((h.directCall (small call mem_cons_self)).imp (fun thunks₁ l₁ fits => ?_) fun _ _ fits => fits)
    exact ih fits fun c mem => small c (mem_cons_of_mem _ mem)

theorem Layout.Fits.thunkPass :
    Leads Laying.thunkPass l (fun _ => Fits sigs) (fun _ => Fits sigs) := by
  have start : ({ l with pendingCalls := #[] } : Layout).Fits sigs :=
    { h with pendingCalls := by simp }
  unfold Laying.thunkPass
  rw [leads_bind, leads_get, leads_bind, leads_modify, leads_bind]
  refine (start.directCalls h.pendingCalls).imp (fun _ l₁ fits => ?_) fun _ _ fits => fits
  rw [leads_bind, Laying.leads_codeEnd, leads_modify]
  split
  · exact { fits with }
  · exact fits

theorem Layout.Fits.reserve (kind : RangeKind) (size calls : Nat) :
    Leads (Laying.reserve kind size calls) l (fun _ => Fits sigs) (fun _ => Fits sigs) := by
  unfold Laying.reserve
  rw [leads_bind, leads_get]
  dsimp only
  rw [leads_ite, leads_throw, leads_ite, leads_pure]
  split
  · exact h
  · split
    · exact h.thunkPass
    · exact h

end

theorem LinkData.Fits.addSymbols {link : LinkData} (h : link.Fits) {refs : List (Nat × Symbol)}
    (small : ∀ r ∈ refs, start + r.1 < UInt32.size) :
    (refs.foldl (fun link (place, symbol) => link.addSymbol symbol (start + place)) link).Fits := by
  induction refs generalizing link with
  | nil => exact h
  | cons r refs ih =>
    rw [foldl_cons]
    refine ih ⟨h.internal, ?_, h.funcPtrs⟩ fun r mem => small r (mem_cons_of_mem _ mem)
    intro places mem place there
    have mem : places ∈ (link.symbolic.modify r.2.number (·.push (start + r.1))).toList := mem
    obtain ⟨i, at'⟩ := getElem?_of_mem mem
    rw [Array.getElem?_toList, Array.getElem?_modify] at at'
    split at at'
    · obtain ⟨old, known, rfl⟩ := map_eq_some_iff.1 at'
      rcases mem_toList_push.1 there with there | rfl
      · exact h.symbolic old (mem_toList_of_at known) place there
      · exact small r mem_cons_self
    · exact h.symbolic places (mem_toList_of_at at') place there

/-- Placing a chunk whose lines fit. Its kind has to fit once it is placed. -/
theorem Layout.Fits.append (h : l.Fits sigs) (kind : RangeKind) {c : Chunk} (chunk : c.Fits sigs)
    (placed : ∀ start, start + c.entry < UInt32.size → (kind.placed start c.entry).Fits) :
    Leads (Laying.append c kind) l (fun start l' => l'.Fits sigs ∧ start + c.entry < UInt32.size)
      (fun _ => Fits sigs) := by
  obtain ⟨⟨lines, made, all⟩, entry⟩ := chunk
  unfold Laying.append
  refine leads_bind.2
    ((h.reserve kind c.code.size c.callSites.size).imp (fun _ l₁ h => ?_) fun _ _ fits => fits)
  have size : (l₁.code ++ c.code).size = l₁.code.size + c.code.size := ByteArray.size_append
  have grown : Layout.Fits sigs { l₁ with code := l₁.code ++ c.code } := h.grow (by omega)
  rw [leads_bind, Laying.leads_codeEnd]
  split
  rotate_left
  · exact h
  rename_i start
  rw [leads_bind, leads_modify, leads_bind, Laying.leads_codeEnd]
  split
  rotate_left
  · exact grown
  rename_i room
  dsimp only at room
  rw [leads_bind, leads_modify, leads_pure]
  have entered : l₁.code.size + c.entry < UInt32.size := by omega
  refine ⟨?_, entered⟩
  have inside : ∀ {o : Nat} {line : Line}, (o, line) ∈ located 0 lines →
      l₁.code.size + (o + line.size) < UInt32.size := by
    intro o line mem
    have := (located_le mem).2
    have := made.size
    omega
  have old :
      ∀ {α β : Type} {as : Array α} {bs : Array β} {f : β → α} {P : α → Prop}, (∀ a ∈ as.toList, P a) →
      (∀ b ∈ bs.toList, P (f b)) → ∀ a ∈ (as ++ bs.map f).toList, P a := by
    intro α β as bs f P ha hb a mem
    simp only [Array.toList_append, Array.toList_map, mem_append, List.mem_map] at mem
    obtain mem | ⟨b, mem, rfl⟩ := mem
    · exact ha a mem
    · exact hb b mem
  refine ⟨grown.push (placed _ entered) start, old h.trapSites ?_, old h.callSites ?_, ?_, ?_,
    h.entries, old h.pendingCalls ?_,
    old h.pendingStubs ?_, h.thunkTargets⟩
  · intro s mem
    rw [made.trapSites] at mem
    obtain ⟨⟨o, line⟩, there, is⟩ := mem_filterMap.1 mem
    obtain ⟨bytecode, traps, rfl⟩ := map_eq_some_iff.1 is
    have := inside there
    exact ⟨show l₁.code.size + o < _ by omega,
      (all line (mem_of_located there)).traps bytecode traps⟩
  · intro s mem
    rw [made.callSites] at mem
    obtain ⟨⟨o, line⟩, there, is⟩ := mem_filterMap.1 mem
    obtain ⟨⟨callee, bytecode⟩, calls, rfl⟩ := map_eq_some_iff.1 is
    exact ⟨inside there, ((all line (mem_of_located there)).calls callee bytecode calls).2⟩
  · show (c.symbolRefs.foldl _ l₁.link).Fits
    rw [← Array.foldl_toList, made.symbolRefs]
    refine h.link.addSymbols fun r mem => ?_
    obtain ⟨⟨o, line⟩, there, is⟩ := mem_filterMap.1 mem
    obtain ⟨symbol, _, rfl⟩ := map_eq_some_iff.1 is
    have := inside there
    have := line.size_pos
    show l₁.code.size + (o + Chunk.firstOperand) < _
    have : Chunk.firstOperand = 1 := rfl
    omega
  · intro sig mem
    rcases mem_append.1 (Array.toList_append ▸ mem) with mem | mem
    · exact h.indirectSigs sig mem
    · obtain ⟨line, there, is⟩ := (made.indirectSigs sig).1 (Array.mem_toList_iff.1 mem)
      exact (all line there).expects sig is
  · intro call mem
    rw [made.callSites] at mem
    obtain ⟨⟨o, line⟩, there, is⟩ := mem_filterMap.1 mem
    obtain ⟨⟨callee, bytecode⟩, calls, rfl⟩ := map_eq_some_iff.1 is
    exact ((all line (mem_of_located there)).calls callee bytecode calls).1
  · intro stub mem
    rw [made.stubRefs] at mem
    obtain ⟨⟨o, line⟩, there, is⟩ := mem_filterMap.1 mem
    obtain ⟨⟨place', kind'⟩, stub, same⟩ := map_eq_some_iff.1 is
    cases same
    have := inside there
    have : 0 < place' ∧ place' + 4 ≤ line.size :=
      Instr.hole_le (Instr.mem_holes.2 (.inr ⟨kind', stub⟩))
    show l₁.code.size + (o + place') < _
    omega

theorem Layout.Fits.appendFunction (h : l.Fits sigs) {c : Chunk} {bytecode : Nat}
    (chunk : c.Fits sigs)
    (small : func < UInt32.size) (small' : bytecode < UInt32.size) :
    Leads (Laying.appendFunction c func bytecode) l (fun _ => Fits sigs) (fun _ => Fits sigs) := by
  refine leads_bind.2 ((h.append (.function func bytecode 0) chunk fun start entered =>
    ⟨small, small', entered⟩).imp (fun start l₁ fits => ?_) fun _ _ fits => fits)
  exact leads_modify.2 (fits.1.setEntry func fits.2)

end

end Wasmill.Code

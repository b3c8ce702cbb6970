import Wasmill.Proofs.Machine.Lowered

/-! How the blocks of a lowered function are left.

The moves of an edge leave out parameters that get themselves. They are one parallel copy all the
same, because no two parameters of a block are one value. -/
namespace Wasmill
open Code Steps List Option Activation Exec
variable {xs : List Slot}

namespace Ssa.Function
variable {f : Function} {vals : Slots} {v : Value} {x : Slot}

/-- What a value holds behind an edge: the argument for it, or what it held before. -/
theorem assignAll_some {params args : List Value} (all : f.readAll vals args = some xs)
    (same : params.length = args.length)
    (is : f.assignAll vals params xs v = some x) :
    (∃ arg, (v, f.resolve arg) ∈ (params.map f.resolve).zip (args.map f.resolve) ∧
      f.read vals arg = some x) ∨
      v ∉ params.map f.resolve ∧ vals v = some x := by
  induction params generalizing args xs with
  | nil => exact .inr ⟨not_mem_nil, is⟩
  | cons param params ih =>
    cases args with
    | nil => cases same
    | cons arg args =>
      obtain ⟨y, ys, first, rest, rfl⟩ := readAll_cons_eq_some.1 all
      unfold assignAll assign at is
      by_cases here : v = f.resolve param
      · rw [if_pos here] at is
        cases is
        refine .inl ⟨arg, ?_, first⟩
        rw [here]
        exact mem_cons_self
      · rw [if_neg here] at is
        rcases ih rest (Nat.succ.inj same) is with ⟨arg', mem, read⟩ | ⟨out, is⟩
        · exact .inl ⟨arg', mem_cons_of_mem _ mem, read⟩
        · exact .inr ⟨by simp [here, out], is⟩

end Ssa.Function

namespace Code.Lower
variable {f : Ssa.Function} {e : Ssa.Edge} {place : Nat → Nat} {start : Nat} {s s' : Ssa.State}
  {a : Activation}

theorem mem_moves {dst src : Nat} : (dst, src) ∈ moves f e ↔
    (dst, src) ∈ ((f.block e.block).params.toList.map f.resolve).zip (e.args.toList.map f.resolve) ∧
      dst ≠ src := by
  unfold moves
  rw [mem_filter]
  simp only [decide_eq_true_eq]
  rfl

theorem moves_once (apart : ((f.block e.block).params.toList.map f.resolve).Nodup)
    (same : e.args.size = (f.block e.block).params.size) : ((moves f e).map (·.1)).Nodup := by
  refine (List.Sublist.map _ filter_sublist).nodup ?_
  rw [map_fst_zip]
  · exact apart
  · simp [same]

/-- Every value has what it should have when the moves of an edge are made. -/
theorem At.move (h : At f place start s a) (well : f.WellFormed) (small : f.values.size ≤ noSlot)
    (lt : e.block < f.blocks.size)
    (take : f.take s.vals e = some s') :
    At f place start s' { a.move (moves f e) with pc := start + place e.block } := by
  have block := well.blocks _ (Ssa.Function.block_mem lt)
  have apart := well.apart _ (Ssa.Function.block_mem lt)
  have beside := a.move_beside (moves f e)
  unfold Ssa.Function.take at take
  dsimp only at take
  split at take
  case isFalse => cases take
  case isTrue same =>
    obtain ⟨xs, all, rfl⟩ := map_eq_some_iff.1 take
    refine ⟨lt, Nat.zero_le _, by simp, ?_, ?_⟩
    · intro v x is
      show (a.move (moves f e)).slot? v = some x
      rcases Ssa.Function.assignAll_some all
        (by simpa using same.symm) is with ⟨arg, mem, read⟩ | ⟨out, is⟩
      · have param := (of_mem_zip mem).1
        obtain ⟨p, there, rfl⟩ := List.mem_map.1 param
        have known := block.params p there
        by_cases self : f.resolve p = f.resolve arg
        · -- nothing is moved there, since no other parameter is this one
          rw [slot?_move_of_not_mem ?_]
          · rw [self]
            exact h.slots _ _ read
          · intro mem'
            obtain ⟨⟨dst, src⟩, there', rfl⟩ := List.mem_map.1 mem'
            obtain ⟨mem', ne⟩ := mem_moves.1 there'
            obtain ⟨i, is⟩ := mem_iff_getElem?.1 mem
            obtain ⟨j, is'⟩ := mem_iff_getElem?.1 mem'
            rw [getElem?_zip_eq_some] at is is'
            have ij :=
              (getElem?_inj (List.getElem?_eq_some_iff.1 is.1).1 apart).1 (is.1.trans is'.1.symm)
            subst ij
            rw [is.2] at is'
            exact ne (self.trans (Option.some.inj is'.2))
        · exact slot?_move_of_mem (moves_once apart same) (mem_moves.2 ⟨mem, self⟩)
            (h.slots _ _ read)
            (Nat.ne_of_lt (Nat.lt_of_lt_of_le known small))
              (Nat.lt_of_lt_of_le (Nat.add_lt_add_left known _) h.frame)
      · rw [slot?_move_of_not_mem ?_]
        · exact h.slots _ _ is
        · intro mem
          obtain ⟨⟨dst, src⟩, there, rfl⟩ := List.mem_map.1 mem
          exact out (of_mem_zip (mem_moves.1 there).1).1
    · show (a.move (moves f e)).base + _ ≤ (a.move (moves f e)).slots.size
      rw [beside.base]
      exact Nat.le_trans h.frame beside.size

end Code.Lower

namespace Module.Bears
variable {m : Module} {code : ByteArray} {reach : Nat} {pieces : List Piece}
  {filled : Nat → Option Nat} {func : Nat}
  {f : Ssa.Function} {start : Nat} {place : Nat → Nat} {r : Running} {s s' : Ssa.State}
  {Q : Next → Running → Prop}
  {E : Error → Running → Prop}
variable (h : m.Bears code reach pieces filled func f start place) (own : r.Within m code)
  (at' : Lower.At f place start s r.act)
  {e : Ssa.Edge}
include h own at'

/-- The machine executes the exit of a block. -/
theorem leads_exit (done : (f.block s.block).steps[s.index]? = none) :
    ∃ last p, (start, p) ∈ sited 0 pieces ∧ p.func? = some func ∧
      (r.act.pc, last) ∈ located start p.lines ∧
      r.act.pc = start + place s.block + extent (Lower.body f (f.block s.block)) ∧
      Lower.EndsWith f (fun target => (place target : Int) -
        (place s.block + extent (Lower.body f (f.block s.block)) :
          Nat)) (f.block s.block).leave last ∧
      (Leads Exec.step r Q E ↔
        Leads (Exec.instr r.act.pc (r.act.pc + last.size) last.instr.narrowed) r Q E) := by
  obtain ⟨p, last, there, is, inside, exits⟩ := h.exit_line at'.block
  have whole : (Lower.body f (f.block s.block)).take s.index = Lower.body f (f.block s.block) := by
    refine take_of_length_le ?_
    have := Array.getElem?_eq_none_iff.1 done
    simpa [Lower.body] using this
  have pc := at'.pc
  rw [whole] at pc
  rw [← pc] at inside
  obtain ⟨same, full⟩ : last.at r.act.pc filled = last.instr ∧ last.Full := by
    have ends := Lower.blockExit_ok exits
    generalize (f.block s.block).leave = leave at ends
    cases ends <;> exact ⟨rfl, by rintro _ _ _ _ ⟨⟩⟩
  refine ⟨last, p, there, is, inside, pc, Lower.blockExit_ok exits, ?_⟩
  rw [h.shows.leads_step (located_of_sited there inside) full own.code rfl, same]

/-- An edge is taken, unless a request to stop is noticed: control is at the first line of its
target, and the moves are made. -/
theorem leads_branch
    (pc : r.act.pc = start + place s.block + extent (Lower.body f (f.block s.block))) {rel : Nat → Int}
    (near : Lower.Near rel e)
    (leads : rel = fun target =>
      (place target : Int) - (place s.block + extent (Lower.body f (f.block s.block)) : Nat))
    (well : e.block < f.blocks.size ∧ ∀ v ∈ e.args.toList, f.resolve v < f.values.size)
    (all : f.readAll s.vals e.args.toList = some xs)
    (stop : r.act.signals ∧ r.self.interrupted →
      Q (.go m.stubs.interrupt) (Exec.stopped r r.act.pc))
    (go : Q (.go (start + place e.block)) (r.withAct (r.act.move (Lower.moves f e)))) :
    Leads (Exec.branch r.act.pc (Lower.destOf f rel e).narrowed) r Q E := by
  obtain ⟨lt, args⟩ := well
  have params := (h.well.blocks _ (Ssa.Function.block_mem lt)).params
  have known : ∀ m ∈ Lower.moves f e, m.1 < f.values.size ∧ m.2 < f.values.size := by
    intro m mem
    obtain ⟨one, two⟩ := of_mem_zip (Lower.mem_moves.1 mem).1
    obtain ⟨p, there, is⟩ := List.mem_map.1 one
    obtain ⟨q, there', is'⟩ := List.mem_map.1 two
    rw [← is, ← is']
    exact ⟨params p there, args q there'⟩
  have narrow : (Lower.moves f e).map (fun m => (word m.1, word m.2)) = Lower.moves f e := by
    conv => rhs; rw [← List.map_id (Lower.moves f e)]
    refine map_congr_left fun m mem => ?_
    obtain ⟨one, two⟩ := known m mem
    show (word m.1, word m.2) = m
    rw [word_of_lt (Nat.lt_trans one h.small), word_of_lt (Nat.lt_trans two h.small)]
  have relative : Exec.relative r.act.pc (rel e.block) = pure (start + place e.block) := by
    subst leads
    unfold Exec.relative
    dsimp only
    rw [pc, if_pos (by omega)]
    congr 1
    omega
  have readable : ∀ m ∈ Lower.moves f e, (r.act.slot? m.2).isSome := fun m mem =>
    (readAll_some all at'.slots).1 m.2 (of_mem_zip (Lower.mem_moves.1 mem).1).2
  have fits : ∀ m ∈ Lower.moves f e, m.1 = noSlot ∨ r.act.base + m.1 < r.act.slots.size :=
    fun m mem => .inr (Nat.lt_of_lt_of_le (Nat.add_lt_add_left (known m mem).1 _) at'.frame)
  have moved : Leads (do
      Exec.applyMoves (Lower.moves f e)
      return .go (start + place e.block) : Exec Next) r Q E := by
    rw [leads_bind, leads_applyMoves readable fits, leads_pure]
    exact go
  unfold Exec.branch Dest.narrowed Lower.destOf
  rw [signedWord_of_fits near.1 near.2, show List.map _ (Lower.moves f e) = _ from narrow,
    leads_bind, relative, leads_pure]
  split
  · rw [leads_unlessStopped]
    split
    · rename_i stops
      rw [own.module]
      exact stop stops
    · exact moved
  · exact moved

section
variable {leave : Ssa.Leave}

omit own at' in
theorem exit_well (lt : s.block < f.blocks.size) (is : (f.block s.block).leave = some leave) :
    leave.exit.WellFormed f :=
  (h.well.blocks _ (Ssa.Function.block_mem lt)).leave leave is

omit h own at' in
theorem mem_edges_of_edge? {ref : Ssa.EdgeRef} (is : (f.block ref.block).leave = some leave)
    (edge : f.edge? ref = some e) : leave.exit.edges[ref.index]? = some (some e) := by
  unfold Ssa.Function.edge? at edge
  rw [is] at edge
  exact join_eq_some_iff.1 edge

omit h own at' in
/-- The last edge of a table is that of every index that is too large. -/
theorem getD_edges {edges : List Ssa.Edge} {default : Ssa.Edge} {k : Nat}
    (listed : (edges.map some ++ [some default])[min k edges.length]? = some (some e))
    (rel : Nat → Int) :
    ((edges.map (Lower.destOf f rel)).map Dest.narrowed).getD k
      (Lower.destOf f rel default).narrowed =
      (Lower.destOf f rel e).narrowed := by
  rw [getD_eq_getElem?_getD, getElem?_map, getElem?_map]
  by_cases lt : k < edges.length
  · rw [Nat.min_eq_left (Nat.le_of_lt lt), getElem?_append_left (by simpa using lt),
      getElem?_map] at listed
    obtain ⟨_, there, same⟩ := map_eq_some_iff.1 listed
    cases same
    rw [there]
    rfl
  · rw [Nat.min_eq_right (Nat.le_of_not_lt lt), show edges.length = (edges.map some).length by simp,
      getElem?_concat_length] at listed
    cases listed
    rw [getElem?_eq_none (by omega)]
    rfl

variable (done : (f.block s.block).steps[s.index]? = none)
  (is : (f.block s.block).leave = some leave)
include done is

/-- A block that is left by an edge is continued at its target, unless a request to stop is noticed.
-/
theorem edge {index : Nat} (depart : leave.exit.depart f s.vals = some (.edge index))
    (edge : f.edge? ⟨s.block, index⟩ = some e)
    (all : f.readAll s.vals e.args.toList = some xs)
    (stop : r.act.signals ∧ r.self.interrupted →
      Q (.go m.stubs.interrupt) (Exec.stopped r r.act.pc))
    (go : Q (.go (start + place e.block)) (r.withAct (r.act.move (Lower.moves f e)))) :
    Leads Exec.step r Q E := by
  obtain ⟨last, p, there, _, inside, pc, ends, run⟩ := h.leads_exit (Q := Q) (E := E) own at' done
  have well := h.exit_well at'.block is
  have listed := mem_edges_of_edge? is edge
  have target := well.edges e (mem_of_getElem? listed)
  have branch := fun near => h.leads_branch own at' (E := E) pc near rfl target all stop go
  have read : ∀ {v x}, f.read s.vals v = some x → r.act.slot? (f.resolve v) = some x :=
    fun is => at'.slots _ _ is
  rw [is] at ends
  rw [run]
  cases ends with
  | jump near =>
    cases depart
    cases listed
    exact branch near
  | branch near near' =>
    obtain ⟨c, first, is⟩ := map_eq_some_iff.1 depart
    show Leads (Exec.slot (word (f.resolve _)) >>= _) r Q E
    rw [h.word_value (well.operands _ (mem_singleton_self _)), leads_bind,
      leads_slot_some (read first)]
    cases is
    by_cases nonzero : c.low32 ≠ 0
    · rw [if_pos nonzero] at listed
      cases listed
      rw [if_pos nonzero]
      exact branch near
    · rw [if_neg nonzero] at listed
      cases listed
      rw [if_neg nonzero]
      exact branch near'
  | @table value targets edges default _ leads near near' =>
    obtain ⟨k, first, is⟩ := map_eq_some_iff.1 depart
    cases is
    have listed : (targets.toList ++ [some default])[min k.low32.toNat targets.toList.length]? =
        some (some e) := listed
    rw [leads, length_map] at listed
    show Leads (Exec.slot (word (f.resolve value)) >>= fun k =>
      Exec.branch r.act.pc
        (((edges.map _).map Dest.narrowed).getD k.low32.toNat (Dest.narrowed _))) r Q E
    rw [h.word_value (well.operands value (mem_singleton_self _)), leads_bind,
      leads_slot_some (read first), getD_edges listed]
    refine branch ?_
    have mem := mem_of_getElem? listed
    simp only [mem_append, List.mem_map, Option.some.injEq, exists_eq_right, mem_singleton] at mem
    rcases mem with mem | rfl
    · exact near e mem
    · exact near'
  | @ret v =>
    cases v with
    | none => cases depart
    | some v =>
      obtain ⟨_, _, is⟩ := map_eq_some_iff.1 depart
      cases is
  | trap => cases depart

/-- A function that returns closes its frame with the result. -/
theorem ret {value : Option Slot} (depart : leave.exit.depart f s.vals = some (.ret value)) :
    Leads Exec.step r Q E ↔ Leads (Exec.popFrame value) r Q E := by
  obtain ⟨last, p, there, _, inside, pc, ends, run⟩ := h.leads_exit (Q := Q) (E := E) own at' done
  have well := h.exit_well at'.block is
  rw [is] at ends
  rw [run]
  cases ends with
  | @ret v =>
    cases v with
    | none =>
      cases depart
      show Leads (Exec.result (word noSlot) >>= Exec.popFrame) r Q E ↔ _
      rw [show word noSlot = noSlot from rfl, Exec.result, if_pos rfl, leads_bind, leads_pure]
    | some v =>
      obtain ⟨x, read, is⟩ := map_eq_some_iff.1 depart
      cases is
      have lt := well.operands v (mem_singleton_self _)
      show Leads (Exec.result (word (f.resolve v)) >>= Exec.popFrame) r Q E ↔ _
      rw [h.word_value lt, Exec.result, if_neg (h.value_ne_noSlot lt), leads_bind, leads_bind,
        leads_slot_some (at'.slots _ _ read), leads_pure]
  | jump | trap => cases depart
  | branch | table =>
    obtain ⟨_, _, is⟩ := map_eq_some_iff.1 depart
    cases is

/-- A block that ends in a trap raises it. -/
theorem exit_trap {t : Trap} (depart : leave.exit.depart f s.vals = some (.trap t)) :
    Leads Exec.step r Q E ↔
      E (.trap { trap := t, func := some func, offset := some leave.srcloc }) r := by
  obtain ⟨last, p, there, named, inside, pc, ends, run⟩ :=
    h.leads_exit (Q := Q) (E := E) own at' done
  rw [is] at ends
  rw [run]
  have blame := h.shows.lists.trapInfo there inside t
  rw [named] at blame
  cases ends with
  | trap =>
    cases depart
    show Leads (Exec.trap t r.act.pc) r Q E ↔ _
    rw [leads_trap, own.module, blame]
    rfl
  | jump => cases depart
  | branch | table =>
    obtain ⟨_, _, is⟩ := map_eq_some_iff.1 depart
    cases is
  | @ret v =>
    cases v with
    | none => cases depart
    | some v =>
      obtain ⟨_, _, is⟩ := map_eq_some_iff.1 depart
      cases is

end

end Module.Bears
end Wasmill

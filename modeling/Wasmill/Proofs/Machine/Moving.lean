import Wasmill.Proofs.Machine.Deeds

/-! How branches and calls move slots. -/
namespace Wasmill
open Code Steps List

namespace Exec
variable {r : Running} {E : Error → Running → Prop} {Q : Unit → Running → Prop} {args : List Nat}

theorem leads_slots {srcs : List Nat} (read : ∀ src ∈ srcs, (r.act.slot? src).isSome)
    {Q : List Slot → Running → Prop} :
    Leads (srcs.mapM slot) r Q E ↔ Q (srcs.map fun src => (r.act.slot? src).getD 0) r := by
  induction srcs generalizing Q with
  | nil => exact leads_pure
  | cons src srcs ih =>
    obtain ⟨v, is⟩ := Option.isSome_iff_exists.1 (read src mem_cons_self)
    rw [mapM_cons, leads_bind, leads_slot_some is, leads_bind,
      ih fun s mem => read s (mem_cons_of_mem _ mem),
      leads_pure, map_cons, is]
    rfl

theorem leads_assign {values : List (Nat × Slot)}
    (fits : ∀ p ∈ values, p.1 = noSlot ∨ r.act.base + p.1 < r.act.slots.size)
    {Q : PUnit → Running → Prop} :
    Leads (values.forM fun (dst, v) => setSlot dst v) r Q E ↔
      Q ⟨⟩ (r.withAct (r.act.assign values)) := by
  induction values generalizing r with
  | nil => exact leads_pure
  | cons p values ih =>
    have beside := r.act.set_beside p.1 p.2
    have rest : ∀ q ∈ values, q.1 = noSlot ∨
        (r.act.set p.1 p.2).base + q.1 < (r.act.set p.1 p.2).slots.size := by
      rw [beside.base]
      exact fun q mem => (fits q (mem_cons_of_mem _ mem)).imp_right fun lt =>
        Nat.lt_of_lt_of_le lt beside.size
    show Leads (setSlot p.1 p.2 >>= fun _ => values.forM _) r Q E ↔ _
    rw [leads_bind, leads_setSlot_ok (fits p mem_cons_self)]
    exact ih rest

theorem leads_applyMoves {moves : List (Nat × Nat)} (read : ∀ m ∈ moves, (r.act.slot? m.2).isSome)
    (fits : ∀ m ∈ moves, m.1 = noSlot ∨ r.act.base + m.1 < r.act.slots.size) :
    Leads (applyMoves moves) r Q E ↔ Q () (r.withAct (r.act.move moves)) := by
  have sources :
      (moves.mapM fun m => slot m.2 : Exec (List Slot)) = (moves.map (·.2)).mapM slot := by
    rw [mapM_map]
    rfl
  have readable : ∀ src ∈ moves.map (·.2), (r.act.slot? src).isSome := by
    intro src mem
    obtain ⟨m, there, rfl⟩ := mem_map.1 mem
    exact read m there
  have paired : ∀ vs : List Slot, ((moves.zip vs).forM fun p => setSlot p.1.1 p.2 : Exec PUnit) =
      ((moves.map (·.1)).zip vs).forM fun p => setSlot p.1 p.2 := by
    intro vs
    rw [zip_map_left]
    induction moves.zip vs with
    | nil => rfl
    | cons p rest ih => exact congrArg (setSlot p.1.1 p.2 >>= fun _ => ·) ih
  have values : (moves.map (·.1)).zip ((moves.map (·.2)).map fun src => (r.act.slot? src).getD 0) =
      moves.map fun m => (m.1, (r.act.slot? m.2).getD 0) := by
    rw [map_map, zip_map']
    rfl
  show Leads (moves.mapM (fun m => slot m.2) >>= fun vs => (moves.zip vs).forM fun p =>
    setSlot p.1.1 p.2) r Q E ↔ _
  rw [sources, leads_bind, leads_slots readable, paired, values]
  refine leads_assign fun p mem => ?_
  obtain ⟨m, there, rfl⟩ := mem_map.1 mem
  exact fits m there

theorem pushArgs_ok {a : Activation} (read : ∀ arg ∈ args, (a.slot? arg).isSome) :
    pushArgs args a = (none,
      { a with slots := a.slots ++ (args.map fun arg => (a.slot? arg).getD 0).toArray }) := by
  induction args generalizing a with
  | nil => simp [pushArgs]
  | cons arg args ih =>
    obtain ⟨v, is⟩ := Option.isSome_iff_exists.1 (read arg mem_cons_self)
    have is' : a.slots[a.base + arg]? = some v := is
    have same : ∀ i, (a.slot? i).isSome →
        ({ a with slots := a.slots.push v } : Activation).slot? i = a.slot? i := by
      intro i known
      obtain ⟨x, is⟩ := Option.isSome_iff_exists.1 known
      have is' : a.slots[a.base + i]? = some x := is
      show (a.slots.push v)[a.base + i]? = a.slots[a.base + i]?
      have lt := (Array.getElem?_eq_some_iff.1 is').1
      rw [Array.getElem?_push, if_neg (by omega)]
    have rest : ∀ i ∈ args, (a.slot? i).isSome := fun i mem => read i (mem_cons_of_mem _ mem)
    unfold pushArgs
    rw [is']
    dsimp only
    rw [ih fun i mem => by rw [same i (rest i mem)]; exact rest i mem]
    have values :
        (args.map fun arg => (({ a with slots := a.slots.push v } : Activation).slot? arg).getD 0) =
        args.map fun arg => (a.slot? arg).getD 0 := map_congr_left fun i mem => by
          rw [same i (rest i mem)]
    rw [values, map_cons, is]
    simp

/-- A call with arguments that are there opens a frame with them. -/
theorem leads_pushFrame_ok {dst returnPc : Nat} {callee : Option Nat}
    (read : ∀ arg ∈ args, (r.act.slot? arg).isSome) :
    Leads (pushFrame args dst returnPc callee) r Q E ↔
      Q ()
        (r.withAct (r.act.called (args.map fun arg =>
          (r.act.slot? arg).getD 0) dst returnPc r.act.pc (callee.getD r.act.inst)
        (callee.map fun _ => r.act.inst))) := by
  rw [leads_pushFrame, pushArgs_ok read]
  rfl

end Exec
end Wasmill

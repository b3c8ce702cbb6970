import Wasmill.Proofs.Machine.Rules

/-! The frames of an activation, and what is in their slots. -/
namespace Wasmill
open Code Steps Array

namespace Activation
variable {a b : Activation} {i j : Nat} {v : Slot} {values : List (Nat × Slot)}
  {moves : List (Nat × Nat)}

/-- The activation with slots of the innermost frame written, one after another. -/
def assign (a : Activation) (values : List (Nat × Slot)) : Activation :=
  values.foldl (fun a (i, v) => a.set i v) a

/-- The activation with slots of the innermost frame assigned from others, all at once. -/
def move (a : Activation) (moves : List (Nat × Nat)) : Activation :=
  a.assign (moves.map fun (dst, src) => (dst, (a.slot? src).getD 0))

/-- Only slots of the innermost frame, the place in the code and what a failure leaves behind may
differ. The frame may have got more slots. -/
structure Beside (a b : Activation) : Prop where
  act : b = { a with slots := b.slots, pc := b.pc, faultPc := b.faultPc, pending := b.pending }
  size : a.slots.size ≤ b.slots.size
  below : ∀ k < a.base, ∀ v, a.slots[k]? = some v → b.slots[k]? = some v

theorem Beside.refl (a : Activation) : a.Beside a := ⟨rfl, Nat.le_refl _, fun _ _ _ is => is⟩

theorem Beside.base (h : a.Beside b) : b.base = a.base := by rw [h.act]

theorem Beside.trans {c : Activation} (one : a.Beside b) (two : b.Beside c) : a.Beside c := by
  refine ⟨?_, Nat.le_trans one.size two.size, fun k lt v is => ?_⟩
  · rw [two.act]
    conv => lhs; rw [one.act]
  · exact two.below k (by rw [one.base]; exact lt) v (one.below k lt v is)

theorem Beside.inst (h : a.Beside b) : b.inst = a.inst := by rw [h.act]

theorem Beside.frames (h : a.Beside b) : b.frames = a.frames := by rw [h.act]

/-- More slots were added. -/
theorem append_beside (a : Activation) (more : Array Slot) :
    a.Beside { a with slots := a.slots ++ more } := by
  refine ⟨rfl, ?_, fun k _ v is => ?_⟩
  · show a.slots.size ≤ (a.slots ++ more).size
    rw [size_append]
    exact Nat.le_add_right _ _
  · show (a.slots ++ more)[k]? = some v
    rw [Array.getElem?_append_left (Array.getElem?_eq_some_iff.1 is).1]
    exact is

theorem Beside.at (h : a.Beside b) (pc : Nat) : a.Beside { b with pc } := by
  refine ⟨?_, h.size, h.below⟩
  conv => lhs; rw [h.act]

theorem set_beside (a : Activation) (i : Nat) (v : Slot) : a.Beside (a.set i v) := by
  unfold set
  split
  · exact .refl a
  · refine ⟨rfl, Nat.le_of_eq size_setIfInBounds.symm, fun k lt x is => ?_⟩
    rw [getElem?_setIfInBounds_ne (by omega)]
    exact is

theorem slot?_set_self (some' : i ≠ noSlot) (fits : a.base + i < a.slots.size) :
    (a.set i v).slot? i = some v := by
  unfold set slot?
  rw [if_neg some']
  exact getElem?_setIfInBounds_self_of_lt fits

theorem slot?_set_ne (ne : j ≠ i) : (a.set i v).slot? j = a.slot? j := by
  unfold set slot?
  split
  · rfl
  · show (a.slots.setIfInBounds (a.base + i) v)[a.base + j]? = a.slots[a.base + j]?
    exact getElem?_setIfInBounds_ne (by omega)

theorem assign_beside (a : Activation) (values : List (Nat × Slot)) :
    a.Beside (a.assign values) := by
  induction values generalizing a with
  | nil => exact .refl a
  | cons p values ih => exact (a.set_beside p.1 p.2).trans (ih _)

theorem slot?_assign_of_not_mem (out : j ∉ values.map (·.1)) :
    (a.assign values).slot? j = a.slot? j := by
  induction values generalizing a with
  | nil => rfl
  | cons p values ih =>
    simp only [List.map_cons, List.mem_cons, not_or] at out
    have rest : ((a.set p.1 p.2).assign values).slot? j = (a.set p.1 p.2).slot? j := ih out.2
    exact rest.trans (slot?_set_ne out.1)

theorem slot?_assign_of_mem (once : (values.map (·.1)).Nodup) (mem : (j, v) ∈ values)
    (some' : j ≠ noSlot)
    (fits : a.base + j < a.slots.size) : (a.assign values).slot? j = some v := by
  induction values generalizing a with
  | nil => cases mem
  | cons p values ih =>
    rw [List.map_cons, List.nodup_cons] at once
    have beside := a.set_beside p.1 p.2
    have fits' : (a.set p.1 p.2).base + j < (a.set p.1 p.2).slots.size := by
      rw [beside.base]
      exact Nat.lt_of_lt_of_le fits beside.size
    rcases List.mem_cons.1 mem with rfl | mem
    · have rest : ((a.set j v).assign values).slot? j = (a.set j v).slot? j :=
        slot?_assign_of_not_mem once.1
      exact rest.trans (slot?_set_self some' fits)
    · exact ih once.2 mem fits'

theorem move_beside (a : Activation) (moves : List (Nat × Nat)) : a.Beside (a.move moves) :=
  a.assign_beside _

theorem slot?_move_of_not_mem (out : j ∉ moves.map (·.1)) : (a.move moves).slot? j = a.slot? j := by
  refine slot?_assign_of_not_mem ?_
  rwa [List.map_map]

theorem slot?_move_of_mem (once : (moves.map (·.1)).Nodup) (mem : (j, i) ∈ moves)
    (read : a.slot? i = some v) (some' : j ≠ noSlot)
    (fits : a.base + j < a.slots.size) : (a.move moves).slot? j = some v := by
  refine slot?_assign_of_mem ?_ (List.mem_map.2 ⟨(j, i), mem, ?_⟩) some' fits
  · rwa [List.map_map]
  · show (j, (a.slot? i).getD 0) = (j, v)
    rw [read]
    rfl

/-- The activation after a call was made: the arguments begin a frame of their own. -/
def called (a : Activation) (args : List Slot) (dst returnPc entry owner : Nat)
    (caller : Option Nat) : Activation :=
  { a with
    slots := a.slots ++ args.toArray
    frames := a.frames.push { base := a.slots.size, returnPc, dst, caller }
    base := a.slots.size, inst := owner, pc := entry }

/-- The base is that of the innermost frame. -/
def Framed (a : Activation) : Prop := a.frames.back?.map (·.base) = some a.base

/-- Where the frames begin, from the outermost one on. -/
def bases (a : Activation) : List Nat := a.frames.toList.map (·.base)

/-- The slots of each frame. They end where those of the next one begin. -/
def windows (a : Activation) : List (List Slot) :=
  (a.bases.zip (a.bases.tail ++ [a.slots.size])).map fun (low, high) =>
    (a.slots.extract low high).toList

/-- The frames lie one above another, the outermost one at the bottom. -/
structure Stacked (a : Activation) : Prop where
  framed : a.Framed
  bottom : a.bases.head? = some 0
  order : (a.bases ++ [a.slots.size]).Pairwise (· ≤ ·)

end Activation

end Wasmill

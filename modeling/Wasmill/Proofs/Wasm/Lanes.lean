import Wasmill.Proofs.Effects
import Wasmill.Wasm.Body

/-! What is known of an operator that was read.

Readers never go back, and an operator takes a byte at least. A shuffle has a lane for each of the
sixteen bytes. -/
namespace Wasmill.Wasm
open Steps List

/-- No more is left to read. -/
def Cursor.Onward (c d : Cursor) : Prop := d.left ≤ c.left

instance : Lasting Cursor.Onward := ⟨fun _ => Nat.le_refl _, fun h h' => Nat.le_trans h' h⟩

namespace Read
variable {α β : Type} {P : β → Prop} {x : Read α}

/-- The reader never goes back. -/
abbrev Ahead (x : Read α) : Prop := Respects Cursor.Onward (fun _ => True) x

theorem ahead (moves : ∀ c : Cursor, c.Onward (x c).2) : Ahead x := by
  refine ⟨fun c => ?_⟩
  have moves := moves c
  unfold Leads
  split <;> simp_all

instance [Ahead x] (n : Nat) (done : Array α) : Ahead (many x n done) := by
  induction n generalizing done <;> unfold Read.many <;> infer_instance

instance : Ahead offset := ahead fun _ => Nat.le_refl _
instance (place : Nat) (reason : String) : Ahead (rejectAt place reason : Read α) :=
  inferInstanceAs (Ahead (throw _))
instance (reason : String) : Ahead (reject reason : Read α) := ahead fun _ => Nat.le_refl _
instance : Ahead (lookahead x) := ahead fun _ => Nat.le_refl _
instance : Ahead peek := ahead fun c => by unfold peek; split <;> exact Nat.le_refl _
instance : Ahead byte := ahead fun c => by
  unfold byte
  split
  · exact Nat.sub_le_sub_left (Nat.le_succ _) _
  · exact Nat.le_refl _
instance (n : Nat) : Ahead (window n) := ahead fun c => by
  unfold window
  split
  · exact Nat.sub_le_sub_left (Nat.le_add_right _ n) _
  · exact Nat.le_refl _
instance (n : Nat) : Ahead (fixed n) :=
  inferInstanceAs (Ahead ((window n >>= fun w => pure w.rest) >>= fun w => pure (littleEndian w)))

instance Ahead.unsigned (groups width : Nat) : Ahead (unsignedGroups groups width) := by
  induction groups generalizing width <;> unfold unsignedGroups <;> infer_instance

instance Ahead.signed (groups width : Nat) : Ahead (signedGroups groups width) := by
  induction groups generalizing width <;> unfold signedGroups <;> infer_instance

instance : Ahead u32 := .unsigned ..
instance : Ahead u64 := .unsigned ..
instance : Ahead s32 := .signed ..
instance : Ahead s33 := .signed ..
instance : Ahead s64 := .signed ..
instance [Ahead x] (most : Nat) : Ahead (vec most x) := by unfold vec; infer_instance

instance : Ahead AbstractHeap.read := .seq fun place => .seq fun b => by split <;> infer_instance
instance : Ahead Heap.read := by unfold Heap.read Heap.readAbstract; infer_instance
instance : Ahead RefType.read := by unfold RefType.read; infer_instance
instance : Ahead Ty.read := .seq fun b => by split <;> infer_instance
instance : Ahead MemArg.read := by unfold MemArg.read; infer_instance
instance : Ahead BlockType.read := by unfold BlockType.read; infer_instance
instance : Ahead CatchClause.read := .seq fun b => by split <;> infer_instance
instance (n : Nat) : Ahead (Opcode.lane n) := by unfold Opcode.lane; infer_instance
instance : Ahead Opcode.pair := by unfold Opcode.pair; infer_instance
instance : Ahead Opcode.resumeHandler := .seq fun b => by split <;> infer_instance

instance : Ahead Body.localRuns := by
  unfold Body.localRuns Body.compiledRun Body.localRun; infer_instance

/-! ### Lanes -/

/-- What is read has the property. -/
def Gives (P : α → Prop) (r : Read α) : Prop :=
  ∀ c, Leads r c (fun a d => P a ∧ c.Onward d) fun _ _ => True

theorem gives_pure {b : β} (h : P b) : Gives P (pure b) := fun _ => leads_pure.2 ⟨h, Nat.le_refl _⟩

theorem gives_bind [goes : Ahead x] {f : α → Read β} (h : ∀ a, Gives P (f a)) :
    Gives P (x >>= f) := by
  intro c
  refine leads_bind.2 ((goes.leads c).imp (fun a d first => ?_) fun _ _ _ => trivial)
  exact (h a d).imp (fun _ _ h => ⟨h.1, Lasting.trans first h.2⟩) fun _ _ _ => trivial

theorem gives_reject (reason : String) : Gives P (reject reason) := by
  intro c
  unfold Leads
  trivial

theorem gives_rejectAt (place : Nat) (reason : String) : Gives P (rejectAt place reason) :=
  fun _ => leads_throw.2 trivial

theorem many_length (item : Read α) [Ahead item] (n : Nat) (done : Array α) :
    Gives (fun items => items.size = done.size + n) (many item n done) := by
  induction n generalizing done with
  | zero => exact gives_pure rfl
  | succ n ih =>
    refine gives_bind fun x c => (ih (done.push x) c).imp (fun items _ h => ⟨?_, h.2⟩) fun _ _ _ =>
      trivial
    rw [h.1, Array.size_push]
    omega

end Read

/-- Shuffles have a lane for each byte. -/
def Operator.Lanes (op : Operator) : Prop := ∀ lanes, op = .shuffle lanes → lanes.length = 16

namespace Opcode
open Read

/-- A reader that never makes a bad shuffle. -/
abbrev Good (r : Read Operator) : Prop := r.Gives Operator.Lanes

def GoodEntry (r : Option (Read Operator)) : Prop := ∀ x, r = some x → Good x

theorem goodEntry_none : GoodEntry none := by
  rintro _ ⟨⟩

theorem goodEntry_some {r : Read Operator} : GoodEntry (some r) ↔ Good r := by
  simp [GoodEntry]

theorem good_select {table : Array (Option (Read Operator))}
    (good : ∀ r ∈ table.toList, GoodEntry r) (code : Nat) :
    Good (select table code) := by
  unfold select
  split
  · next reader is =>
    exact good _
      (Array.mem_toList_iff.2 (Array.mem_of_getElem? (Option.join_eq_some_iff.1 is))) reader rfl
  · exact gives_reject _

/-- An operator that is no shuffle. -/
theorem good_pure {op : Operator} (ne : ∀ lanes, op ≠ .shuffle lanes) : Good (pure op) :=
  gives_pure fun lanes is => absurd is (ne lanes)

theorem good_extra (name : String) (what : Extra) : Good (pure (.extra name what)) :=
  good_pure nofun

theorem good_access (name : String) (log2 : Nat) (exact : Bool) (pops pushes : List ValType) :
    Good (access name log2 exact pops pushes) := gives_bind fun _ => good_extra _ _

namespace Vector

theorem good_shuffle : GoodEntry shuffle := by
  refine goodEntry_some.2 fun c =>
    leads_bind.2 ((many_length (lane 32) 16 #[] c).imp (fun lanes d count => ?_) fun _ _ _ => trivial)
  refine leads_pure.2 ⟨?_, count.2⟩
  rintro _ ⟨⟩
  simpa using count.1

theorem good_lane (name : String) (log2 : Nat) (pushes : List ValType) :
    Good (laneAccess name log2 pushes) := by
  simp only [laneAccess, access, bind_assoc, pure_bind, gives_bind, good_extra, implies_true]

set_option maxRecDepth 8000 in
theorem table_good : ∀ r ∈ table.toList, GoodEntry r := by
  simp only [table, now, one, two, three, test, shift, load, loadLane, storeLane, loadV128,
    storeV128, constV128, extract,
    replace, plain, bare, forall_mem_cons, goodEntry_none, goodEntry_some, good_shuffle, good_lane,
      good_access,
    gives_bind, good_pure, ne_eq, reduceCtorEq, not_false_eq_true, implies_true, not_mem_nil,
      false_implies, and_self]

end Vector

namespace Managed

theorem good_branchOnCast (name : String) (what : Nat → RefType → RefType → Extra) :
    GoodEntry (branchOnCast name what) := by
  refine goodEntry_some.2 (gives_bind fun _ => gives_bind fun flags => gives_bind fun _ => ?_)
  split
  · exact gives_rejectAt _ _
  · exact gives_bind fun _ => gives_bind fun _ => good_extra _ _

theorem table_good : ∀ r ∈ table.toList, GoodEntry r := by
  simp [-bind_pure_comp, table, aggregate, heaped, bare, goodEntry_some, good_branchOnCast,
    gives_bind, good_extra]

theorem bulk_good : ∀ r ∈ bulk.toList, GoodEntry r := by
  simp [-bind_pure_comp, bulk, indexed, indexed2, bare, goodEntry_some, gives_bind,
    good_pure, good_extra]

end Managed

namespace Atomic

theorem good_fence : Good fence := by
  refine gives_bind fun b => ?_
  split
  · exact gives_reject _
  · exact good_extra _ _

theorem good_shared (numbers : Nat) (name : String) : Good (shared numbers name) := by
  refine gives_bind fun order => ?_
  split
  · exact gives_reject _
  · exact gives_bind fun _ => good_extra _ _

theorem table_good : ∀ r ∈ table.toList, GoodEntry r := by
  simp only [table, load, store, update, exchange, bare, forall_mem_map, forall_mem_append,
    forall_mem_flatMap,
    forall_mem_cons, mem_replicate, and_imp, forall_eq_apply_imp_iff, goodEntry_none,
      goodEntry_some,
    good_access, good_fence, good_shared, good_extra, implies_true, not_mem_nil,
      false_implies, and_self]

end Atomic

theorem good_typedSelect : Good typedSelect := by
  refine gives_bind fun _ => gives_bind fun n => ?_
  split
  · exact gives_rejectAt _ _
  · exact gives_bind fun _ => good_pure nofun

theorem good_numeric (code : Nat) : Good (if 0x28 ≤ code ∧ code ≤ 0x35 then Opcode.load code
    else if 0x36 ≤ code ∧ code ≤ 0x3e then Opcode.store code
    else
      match numeric[code - numericStart]? with
      | some op => if code < numericStart then Read.reject "illegal opcode" else return op
      | none => Read.reject "illegal opcode") := by
  have plain : ∀ op ∈ numeric.toList, ∀ lanes, op ≠ .shuffle lanes := by simp [numeric]
  split
  · exact gives_bind fun _ => good_pure nofun
  · split
    · exact gives_bind fun _ => good_pure nofun
    · split
      · next op is =>
        split
        · exact gives_reject _
        · exact good_pure (plain op (Array.mem_toList_iff.2 (Array.mem_of_getElem? is)))
      · exact gives_reject _

end Opcode

set_option maxRecDepth 4000 in
open Opcode Read in
theorem Operator.read_good (c : Cursor) :
    Leads Operator.read c (fun op d => op.Lanes ∧ d.left < c.left) fun _ _ => True := by
  have managed := good_select Managed.table_good
  have bulk := good_select Managed.bulk_good
  have vector := good_select Vector.table_good
  have atomic := good_select Atomic.table_good
  have first : Leads byte c (fun _ d => d.left < c.left) fun _ _ => True := by
    unfold Leads byte
    by_cases more : c.pos < c.stop ∧ c.pos < c.bytes.size
    · rw [dif_pos more]
      exact Nat.sub_lt_sub_left more.1 (Nat.lt_succ_self _)
    · rw [dif_neg more]
      trivial
  refine leads_bind.2 (first.imp (fun code d lt => ?_) fun _ _ _ => trivial)
  refine ((?_ : Good _) d).imp (fun _ _ h => ⟨h.1, Nat.lt_of_le_of_lt h.2 lt⟩) fun _ _ _ => trivial
  split
  all_goals first
    | exact good_numeric _
    | exact gives_bind fun _ => gives_bind fun _ => good_pure nofun
    | simp only [off, bare, indexed, gives_bind, good_pure, good_typedSelect, managed, bulk,
        vector, atomic, ne_eq, reduceCtorEq, not_false_eq_true, implies_true]

theorem Operator.more_of_read {c next : Cursor} {o : Operator}
    (read : Operator.read c = (.ok o, next)) : c.atEnd = false := by
  have less := ((Operator.read_good c).ok read).2
  simp only [Cursor.left, Cursor.atEnd, decide_eq_false_iff_not] at less ⊢
  omega

end Wasmill.Wasm

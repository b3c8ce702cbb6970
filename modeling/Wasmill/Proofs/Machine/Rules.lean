import Wasmill.Machine
import Wasmill.Proofs.Effects

/-! How the single operations of the machine end. -/
namespace Wasmill
open Code Steps
variable {i : Nat} {t : Trap}

namespace Ssa
variable {a : Slot}

theorem BinaryOp.canTrap_of_error {op : BinaryOp} {b : Slot} (is : op.eval a b = .error t) :
    op.canTrap = true ∧ t ≠ .stackOverflow := by
  refine ⟨by cases op <;> first | rfl | (cases is), ?_⟩
  rintro rfl
  cases op <;> first
    | cases is
    | simp only [eval, i32Trapping, i64Trapping, Word.divS, Word.divU, Word.remS, Word.remU] at is
      (repeat' split at is) <;> cases is

theorem ConvertOp.canTrap_of_error {op : ConvertOp} (is : op.eval a = .error t) :
    op.canTrap = true ∧ t ≠ .stackOverflow := by
  refine ⟨by cases op <;> first | rfl | (cases is), ?_⟩
  rintro rfl
  cases op <;> simp only [eval, truncateIn] at is <;> (repeat' split at is) <;> cases is

end Ssa

/-- The instance whose code runs. -/
def Running.self (r : Running) : Instance := r.world.instances.getD r.act.inst default

/-- The slot of the innermost frame. -/
def Activation.slot? (a : Activation) (i : Nat) : Option Slot := a.slots[a.base + i]?

/-- The activation with a slot of the innermost frame written, unless it is none. -/
def Activation.set (a : Activation) (i : Nat) (v : Slot) : Activation :=
  if i = noSlot then a else { a with slots := a.slots.setIfInBounds (a.base + i) v }

/-- The running code with its activation changed. -/
abbrev Running.withAct (r : Running) (a : Activation) : Running := { r with act := a }

namespace Exec
variable {α : Type} {r : Running} {Q : α → Running → Prop} {E : Error → Running → Prop}
  {x : Except Broken α} {v : Slot}
  {pc : Nat}

@[simp] theorem leads_ask {f : Running → α} : Leads (ask f) r Q E ↔ Q (f r) r := by
  unfold Leads
  rfl

@[simp] theorem leads_test {f : Running → Bool} {Q : Bool → Running → Prop} :
    Leads (test f) r Q E ↔ Q (f r) r := leads_ask

@[simp] theorem leads_self {f : Instance → α} : Leads (self f) r Q E ↔ Q (f r.self) r := leads_ask

@[simp] theorem leads_onSelf {f : Instance → Instance} {Q : PUnit → Running → Prop} :
    Leads (onSelf f) r Q E ↔ Q ⟨⟩ { r with world := r.world.onInstance r.act.inst f } :=
  leads_modify

@[simp] theorem leads_onWorld {f : World → World} {Q : PUnit → Running → Prop} :
    Leads (onWorld f) r Q E ↔ Q ⟨⟩ { r with world := f r.world } := leads_modify

@[simp] theorem leads_onAct {f : Activation → Activation} {Q : PUnit → Running → Prop} :
    Leads (onAct f) r Q E ↔ Q ⟨⟩ (r.withAct (f r.act)) := leads_modify

@[simp] theorem leads_takeFrom {f : Activation → α × Activation} :
    Leads (takeFrom f) r Q E ↔ Q (f r.act).1 (r.withAct (f r.act).2) := by
  unfold Leads
  rfl

@[simp] theorem leads_broken {cause : Broken} :
    Leads (broken cause : Exec α) r Q E ↔ E (.internal cause) r := leads_throw

theorem leads_lift :
    Leads (lift x) r Q E ↔ match x with
      | .ok a => Q a r
      | .error cause => E (.internal cause) r := by
  cases x with
  | ok a => exact leads_pure
  | error cause => exact leads_broken

theorem leads_lift_ok {a : α} (is : x = .ok a) : Leads (lift x) r Q E ↔ Q a r := by
  rw [leads_lift, is]

@[simp] theorem leads_trap :
    Leads (trap t pc : Exec α) r Q E ↔ E (.trap (r.self.module.trapInfo t pc)) r := by
  unfold trap
  rw [leads_bind, leads_self, leads_throw]

theorem leads_slot {Q : Slot → Running → Prop} :
    Leads (slot i) r Q E ↔ match r.act.slot? i with
      | some v => Q v r
      | none => E (.internal (.slotRead i)) r := by
  unfold slot
  rw [leads_bind, leads_ask]
  show Leads (match r.act.slot? i with
    | some v => pure v
    | none => broken (.slotRead i)) r Q E ↔ _
  cases r.act.slot? i with
  | none => exact leads_broken
  | some v => exact leads_pure

theorem leads_slot_some {Q : Slot → Running → Prop} (is : r.act.slot? i = some v) :
    Leads (slot i) r Q E ↔ Q v r := by
  rw [leads_slot, is]

theorem leads_setSlot {Q : Unit → Running → Prop} :
    Leads (setSlot i v) r Q E ↔ if i = noSlot ∨ r.act.base + i < r.act.slots.size then Q ()
      (r.withAct (r.act.set i v))
      else E (.internal (.slotWrite i)) r := by
  unfold setSlot Activation.set
  by_cases none' : i = noSlot
  · simp [none']
  · simp only [none', if_false, leads_bind, leads_ask, leads_test, leads_ite, leads_onAct,
      leads_broken, decide_eq_true_eq,
      false_or]

theorem leads_setSlot_ok {Q : Unit → Running → Prop}
    (fits : i = noSlot ∨ r.act.base + i < r.act.slots.size) :
    Leads (setSlot i v) r Q E ↔ Q () (r.withAct (r.act.set i v)) := by
  rw [leads_setSlot, if_pos fits]

theorem leads_fault {stub : Nat} {Q : Next → Running → Prop} :
    Leads (fault pc stub) r Q E ↔ Q (.go stub) (r.withAct { r.act with faultPc := pc }) := by
  unfold fault
  rw [leads_bind, leads_onAct, leads_pure]

theorem leads_takeInterrupt {Q : Bool → Running → Prop} :
    Leads takeInterrupt r Q E ↔ if r.self.interrupted then
        Q true { r with world := r.world.onInstance r.act.inst fun i =>
          { i with interrupted := false } }
      else Q false r := by
  unfold takeInterrupt
  simp only [leads_bind, leads_self, leads_ite, leads_onSelf, leads_pure]

/-- The running code with the request to stop used up. -/
def stopped (r : Running) (pc : Nat) : Running :=
  { world := r.world.onInstance r.act.inst fun i => { i with interrupted := false },
    act := { r.act with faultPc := pc } }

/-- A request to stop that is used up changes nothing else in the instance. -/
theorem stopped_self (r : Running) (pc : Nat) {g : Instance → α}
    (same : ∀ {i : Instance}, g { i with interrupted := false } = g i) :
    g (stopped r pc).self = g r.self := by
  unfold stopped Running.self World.onInstance
  simp only [Array.getD_eq_getD_getElem?, Array.getElem?_modify]
  cases r.world.instances[r.act.inst]? with
  | none => simp
  | some i => simpa using same

theorem leads_unlessStopped {next : Exec Next} {Q : Next → Running → Prop} :
    Leads (unlessStopped pc next) r Q E ↔ if r.act.signals ∧ r.self.interrupted then
        Q (.go r.self.module.stubs.interrupt) (stopped r pc) else Leads next r Q E := by
  have same : (stopped r pc).self.module = r.self.module := stopped_self r pc rfl
  unfold unlessStopped
  simp only [leads_bind, leads_test, leads_ite, leads_takeInterrupt]
  by_cases signals : r.act.signals = true
  · by_cases interrupted : r.self.interrupted = true
    · rw [if_pos signals, if_pos interrupted, if_pos trivial, if_pos ⟨signals, interrupted⟩,
        leads_self, leads_fault, ← same]
      rfl
    · simp [signals, interrupted]
  · simp [signals]

theorem leads_fetched {i : Instr} {next : Nat}
    (met : Fetch.instrAt r.self.code r.act.pc = .ok (.instr i, next))
    {Q : Next → Running → Prop} : Leads step r Q E ↔ Leads (instr r.act.pc next i) r Q E := by
  unfold step
  rw [leads_bind, leads_ask, leads_bind, leads_self, leads_bind, leads_lift_ok met]

end Exec
end Wasmill

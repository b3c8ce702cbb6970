import Wasmill.Proofs.Machine.Simulating

/-! Frames on top of one another.

All calls of an activation share its slots. Each frame has a window of them, from its base up to
where the next frame begins. Calls open a frame above all slots and returns cut them off again, so a
caller finds its window as it was. -/
namespace Wasmill
open Code Steps List
variable {args : List Nat} {i : Instr} {dst next : Nat} {frame : Frame} {r : Running}

theorem Code.Instr.returns_of_calls (calls : i.call?.isSome) : i.returns = false := by
  cases i <;> first | rfl | cases calls

namespace Activation
variable {a b : Activation}

theorem flatten_windows {slots : Array Slot} {low high : Nat} {bases : List Nat}
    (order : (low :: bases ++ [high]).Pairwise (· ≤ ·)) :
    (((low :: bases).zip (bases ++ [high])).map fun (low, high) =>
      (slots.extract low high).toList).flatten =
      (slots.extract low high).toList := by
  induction bases generalizing low with
  | nil => simp
  | cons base bases ih =>
    have le : low ≤ base := (pairwise_cons.1 order).1 base (by simp)
    have le' : base ≤ high := (pairwise_cons.1 (pairwise_cons.1 order).2).1 high (by simp)
    rw [cons_append, zip_cons_cons, map_cons, flatten_cons, ih (pairwise_cons.1 order).2,
      ← Array.toList_append, Array.extract_append_extract, Nat.min_eq_left le, Nat.max_eq_right le']

/-- The slots are those of the frames. -/
theorem Stacked.flatten (h : a.Stacked) : a.windows.flatten = a.slots.toList := by
  obtain ⟨bases, is⟩ : ∃ bases, a.bases = 0 :: bases := by
    have bottom := h.bottom
    cases is : a.bases with
    | nil => rw [is] at bottom; cases bottom
    | cons base bases => rw [is] at bottom; cases bottom; exact ⟨bases, rfl⟩
  have order := h.order
  unfold windows
  rw [is] at order ⊢
  exact (flatten_windows order).trans (by rw [Array.extract_size])

theorem Stacked.beside (h : a.Stacked) (beside : a.Beside b) : b.Stacked := by
  have bases : b.bases = a.bases := by rw [Activation.bases, beside.frames]; rfl
  have ⟨order, _, fits⟩ := pairwise_append.1 h.order
  refine ⟨?_, bases ▸ h.bottom,
    bases ▸ pairwise_append.2 ⟨order, pairwise_singleton .., fun base mem _ size => ?_⟩⟩
  · unfold Framed
    rw [beside.frames, beside.base]
    exact h.framed
  · rw [mem_singleton.1 size]
    exact Nat.le_trans (fits base mem _ (mem_singleton_self _)) beside.size

theorem Stacked.called (h : a.Stacked) (args : List Slot) (dst returnPc pc owner : Nat)
    (caller : Option Nat) :
    (a.called args dst returnPc pc owner caller).Stacked := by
  have bases : (a.called args dst returnPc pc owner caller).bases = a.bases ++ [a.slots.size] := by
    simp [Activation.bases, Activation.called]
  have grown : a.slots.size ≤ (a.called args dst returnPc pc owner caller).slots.size :=
    (a.append_beside args.toArray).size
  refine ⟨called_framed .., ?_, ?_⟩
  · rw [bases, head?_append, h.bottom]
    rfl
  · have fits := (pairwise_append.1 h.order).2.2
    rw [bases]
    refine pairwise_append.2 ⟨h.order, pairwise_singleton .., fun base mem size is => ?_⟩
    rw [mem_singleton.1 is]
    rcases mem_append.1 mem with mem | mem
    · exact Nat.le_trans (fits base mem _ (mem_singleton_self _)) grown
    · rw [mem_singleton.1 mem]
      exact grown

theorem Stacked.closed (h : r.act.Stacked) {below : Frame} (is : r.act.frames.back? = some frame)
    (under : r.act.frames.pop.back? = some below) :
    (Exec.closed r frame below.base).act.Stacked := by
  have bases : r.act.bases = (Exec.closed r frame below.base).act.bases ++ [frame.base] := by
    rw [closed_act]
    unfold Activation.bases
    rw [toList_pop_of_back? is, map_append]
    rfl
  obtain ⟨front, back⟩ := Array.back?_eq_some_iff.1 under
  have ⟨order, _, _⟩ := pairwise_append.1 h.order
  have fits : frame.base ≤ r.act.slots.size :=
    (pairwise_append.1 h.order).2.2 _ (by rw [bases]; simp) _ (mem_singleton_self _)
  have size : (Exec.closed r frame below.base).act.slots.size = frame.base := by
    rw [closed_act]
    exact (Array.size_shrink ..).trans (Nat.min_eq_left fits)
  refine ⟨?_, ?_, ?_⟩
  · rw [closed_act]
    unfold Framed
    rw [under]
    rfl
  · have bottom := h.bottom
    rw [bases, head?_append] at bottom
    rw [closed_act] at bottom ⊢
    unfold Activation.bases at bottom ⊢
    dsimp only at bottom ⊢
    rw [back] at bottom ⊢
    cases front.toList <;> simp_all
  · rw [size, ← bases]
    exact order

end Activation

namespace Machine
open Exec Activation

/-! ### Every state -/

/-- The machine makes some steps. -/
inductive Reaches (w : World) (top : Task) (below : List Task) : World → Task → List Task → Prop
  | refl : Reaches w top below w top below
  | step {w₁ w₂ : World} {top₁ top₂ : Task} {below₁ below₂ : List Task}
      (first : Reaches w top below w₁ top₁ below₁)
    (is : Machine.step w₁ top₁ below₁ = .running w₂ top₂ below₂) :
    Reaches w top below w₂ top₂ below₂

/-- The frames of all code lie one above another. -/
def AllStacked (tasks : List Task) : Prop := ∀ a, .code a ∈ tasks → a.Stacked

variable {w w' : World} {top top' : Task} {below below' rest : List Task} {a b : Activation}

theorem stacked_deed {t : Running} (h : r.act.Stacked) (deed : Deed i r t) : t.act.Stacked := by
  obtain ⟨s, u, first, act, last⟩ := deed
  have h := h.beside first.act
  refine Stacked.beside ?_ last.act
  cases act with
  | aside | self => exact h
  | call | away => exact h.called ..
  | back _ is under => exact h.closed is under

theorem Left.stacked (h : AllStacked below) (left : Left below top' below') :
    AllStacked (top' :: below') := by
  cases left with
  | answer => exact fun a mem => h a (mem_cons_of_mem _ (by simpa using mem))
  | fail beside =>
    intro c mem
    rcases mem_cons.1 mem with is | mem
    · cases is
      exact (h _ (by simp)).beside beside
    · exact h c (mem_cons_of_mem _ (mem_cons_of_mem _ mem))

/-- What one step can do keeps the frames on top of one another. -/
theorem Turn.stacked (h : AllStacked (top :: below)) (turn : Turn w top below top' below') :
    AllStacked (top' :: below') := by
  have under : AllStacked below := fun a mem => h a (mem_cons_of_mem _ mem)
  have onto : ∀ {a tasks}, a.Stacked → AllStacked tasks → AllStacked (.code a :: tasks) := by
    intro a tasks one more c mem
    rcases mem_cons.1 mem with is | mem
    · cases is
      exact one
    · exact more c mem
  have host : ∀ {g tasks}, AllStacked tasks → AllStacked (.host g :: tasks) :=
    fun more c mem => more c (by simpa using mem)
  cases turn with
  | code _ deed beside => exact onto ((stacked_deed (h _ (by simp)) deed).beside beside) under
  | miss beside => exact onto ((h _ (by simp)).beside beside) under
  | exit beside => exact host (onto ((h _ (by simp)).beside beside) under)
  | leave left => exact left.stacked under
  | host => exact host under
  | enter stacked => exact onto stacked (host under)
  | resume beside =>
    exact onto ((under _ (by simp)).beside beside) fun a mem => under a (mem_cons_of_mem _ mem)
  | lose left => exact left.stacked fun a mem => under a (mem_cons_of_mem _ mem)

theorem Reaches.stacked (reaches : Reaches w top below w' top' below')
    (h : AllStacked (top :: below)) : AllStacked (top' :: below') := by
  induction reaches with
  | refl => exact h
  | step first is ih => exact (turn is).stacked ih

/-! ### Calls -/

/-- The machine makes some steps, and is deeper in calls than that after each. -/
inductive StaysAbove (below : List Task) (depth : Nat) (w : World) (top : Task) (rest : List Task) :
    World → Task → List Task → Prop
  | refl : StaysAbove below depth w top rest w top rest
  | step {w₁ w₂ : World} {top₁ top₂ : Task} {rest₁ rest₂ : List Task}
      (first : StaysAbove below depth w top rest w₁ top₁ rest₁)
    (is : Machine.step w₁ top₁ rest₁ = .running w₂ top₂ rest₂)
    (deeper : Deeper below depth top₂ rest₂) :
    StaysAbove below depth w top rest w₂ top₂ rest₂

theorem StaysAbove.under {owner : Nat}
    (stays : StaysAbove below a.frames.size w top rest w' top' below')
    (h : Under a frame owner below top rest) : Under a frame owner below top' below' := by
  induction stays with
  | refl => exact h
  | step first is deeper ih => exact ih.step is deeper

end Machine

namespace Exec
variable {α : Type} {r : Running}

theorem leads_read {x : Exec α} {f : α → Exec Next} {Q : Next → Running → Prop} [first : Mild Eq x]
    (rest : ∀ a, Leads (f a) r Q fun _ _ => True) : Leads (x >>= f) r Q fun _ _ => True :=
  leads_bind.2 ((first.leads r).imp (fun a _ same => same ▸ rest a) fun _ _ _ => trivial)

/-- A frame is opened for a call. -/
def OpensFrame (r : Running) (dst back : Nat) (next : Next) (t : Running) : Prop :=
  (∃ goal, next = .go goal) ∧ ∃ values owner caller, caller.getD owner = r.act.inst ∧
    t.act = r.act.called values dst back r.act.pc owner caller

/-- A frame is opened for a call, unless a request to stop is noticed. -/
def OpensUnlessStopped (r : Running) (dst back : Nat) (next : Next) (t : Running) : Prop :=
  if r.act.signals ∧ r.self.interrupted then (∃ goal, next = .go goal) ∧ t.act.frames = r.act.frames
    else OpensFrame r dst back next t

theorem opens_pushFrame (args : List Nat) (dst next : Nat) (callee : Option Nat)
    {rest : Unit → Exec Next}
    (goes : ∀ t, Leads (rest ()) t (fun n u => (∃ goal, n = .go goal) ∧ u.act = t.act)
      fun _ _ => True) :
    Leads (pushFrame args dst next callee >>= rest) r (OpensFrame r dst next) fun _ _ => True := by
  obtain ⟨pushed, is⟩ := pushArgs_eq args r.act
  rw [leads_bind, leads_pushFrame]
  dsimp only
  split
  · trivial
  · rw [is]
    refine (goes _).imp (fun _ u h => ⟨h.1, pushed, callee.getD r.act.inst,
      callee.map fun _ => r.act.inst, ?_, h.2⟩)
      fun _ _ _ => trivial
    cases callee <;> rfl

theorem opens_unlessStopped {pc : Nat} {x : Exec Next}
    (rest : Leads x r (OpensFrame r dst next) fun _ _ => True) :
    Leads (unlessStopped pc x) r (OpensUnlessStopped r dst next) fun _ _ => True := by
  unfold OpensUnlessStopped
  rw [leads_unlessStopped]
  split
  · exact ⟨⟨_, rfl⟩, rfl⟩
  · exact rest

/-- An instruction that calls does nothing else. -/
theorem opens_instr (calls : i.call? = some (args, dst)) (pc next : Nat) :
    Leads (instr pc next i) r (OpensUnlessStopped r dst next) fun _ _ => True := by
  have goes : ∀ goal t, Leads (pure (Next.go goal) : Exec Next) t
      (fun n u => (∃ goal, n = .go goal) ∧ u.act = t.act) fun _ _ => True :=
    fun goal _ => leads_pure.2 ⟨⟨goal, rfl⟩, rfl⟩
  cases i with
  | call rel args dst =>
    cases calls
    unfold instr call
    refine opens_unlessStopped (leads_read fun target => leads_read fun profiling => ?_)
    split <;> exact leads_read fun goal => opens_pushFrame _ _ _ _ (goes goal)
  | callImport record args dst =>
    cases calls
    unfold instr
    exact opens_unlessStopped (leads_read fun _ => leads_read fun goal =>
      opens_pushFrame _ _ _ _ (goes goal))
  | callIndirect table token index args dst =>
    cases calls
    unfold instr callIndirect
    refine opens_unlessStopped (leads_read fun _ => leads_read fun _ => leads_read fun _ =>
      leads_read fun elem => ?_)
    cases elem with
    | error t => exact leads_trap.2 trivial
    | ok elem =>
      refine leads_read fun _ => leads_read fun _ => ?_
      split
      · exact leads_trap.2 trivial
      · refine leads_read fun own => ?_
        split
        · exact opens_pushFrame _ _ _ _ (goes elem.entry)
        · refine leads_read fun alive => ?_
          split
          · exact opens_pushFrame _ _ _ _ fun t =>
              leads_bind.2 (leads_onWorld.2 (leads_pure.2 ⟨⟨_, rfl⟩, rfl⟩))
          · exact leads_trap.2 trivial
  | _ => cases calls

/-- A return closes a frame, or ends the code. -/
theorem leads_ret (pc next src : Nat) :
    Leads (instr pc next (.ret src)) r (fun n t => n.exits = false ∧
    ∀ goal, n = .go goal → t.act.frames.size + 1 = r.act.frames.size) fun _ _ => True := by
  unfold instr
  refine leads_read fun value => ?_
  rw [leads_popFrame]
  split
  · trivial
  · rename_i frame is
    split
    · exact ⟨rfl, nofun⟩
    · rename_i below under
      have closed : (closed r frame below.base).act.frames.size + 1 = r.act.frames.size := by
        obtain ⟨front, is⟩ := Array.back?_eq_some_iff.1 is
        simp [Activation.closed_act, is]
      split
      · exact ⟨rfl, fun _ _ => closed⟩
      · split
        · exact (Respects.leads (R := Calm) (E := (·.trap? = none)) _).imp
            (fun _ _ calm => ⟨rfl, fun _ _ => calm.act.frames ▸ closed⟩) fun _ _ _ => trivial
        · trivial

end Exec

namespace Machine
open Exec Activation
variable {w w' : World} {a b : Activation} {below : List Task}

/-- A call opens a frame, or a request to stop is noticed and no frame changes. -/
theorem called_of_step (executes : Executes w a i next) (calls : i.call? = some (args, dst))
    (is : step w (.code a) below = .running w' (.code b) below) :
    (Uninterrupted w a → ∃ values owner caller pc,
      caller.getD owner = a.inst ∧ b = { a.called values dst next a.pc owner caller with pc }) ∧
    (¬ Uninterrupted w a → b.frames = a.frames) := by
  have leads : Leads Exec.step ⟨w, a⟩ (OpensUnlessStopped ⟨w, a⟩ dst next) fun _ _ => True :=
    (leads_fetched (r := ⟨w, a⟩) executes).2 (opens_instr calls a.pc next)
  have stays : ∀ n t, OpensUnlessStopped ⟨w, a⟩ dst next n t → n.exits = false := by
    intro n t called
    unfold OpensUnlessStopped at called
    split at called <;> obtain ⟨⟨goal, rfl⟩, _⟩ := called <;> rfl
  obtain ⟨pc, t, called, rfl⟩ := went leads stays is
  unfold OpensUnlessStopped at called
  split at called
  · rename_i stops
    exact ⟨fun undisturbed => absurd stops undisturbed, fun _ => called.2⟩
  · rename_i undisturbed
    obtain ⟨_, values, owner, caller, home, act⟩ := called
    exact ⟨fun _ => ⟨values, owner, caller, pc, home, by rw [act]⟩,
      fun disturbed => absurd undisturbed disturbed⟩

/-- A call that takes the machine deeper is under way. -/
theorem under_call (executes : Executes w a i next) (calls : i.call? = some (args, dst))
    (is : step w (.code a) below = .running w' (.code b) below)
    (deeper : a.frames.size < b.frames.size) :
    ∃ frame owner, frame.returnPc = next ∧ frame.dst = dst ∧
      frame.caller.getD owner = a.inst ∧ Under a frame owner below (.code b) below := by
  obtain ⟨opens, same⟩ := called_of_step executes calls is
  by_cases undisturbed : Uninterrupted w a
  · obtain ⟨values, owner, caller, pc, home, rfl⟩ := opens undisturbed
    exact ⟨_, owner, rfl, rfl, home, [], _, rfl,
      (a.above_called values dst next a.pc owner caller).beside ((Beside.refl _).at pc)⟩
  · exact absurd deeper (by rw [same undisturbed]; exact Nat.lt_irrefl _)

/-! ### How many frames there are -/

/-- The frames that the next instruction opens. -/
def opens (w : World) (a : Activation) : Nat :=
  match Fetch.instrAt (w.instances.getD a.inst default).code a.pc with
  | .ok (.instr i, _) => if i.call?.isSome ∧ Uninterrupted w a then 1 else 0
  | _ => 0

/-- The frames that the next instruction closes. -/
def closes (w : World) (a : Activation) : Nat :=
  match Fetch.instrAt (w.instances.getD a.inst default).code a.pc with
  | .ok (.instr i, _) => if i.returns then 1 else 0
  | _ => 0

theorem kept_of_step (is : step w (.code a) below = .running w' (.code b) below)
    (plain : ∀ i next, Executes w a i next → i.call? = none ∧ i.returns = false) :
    b.frames = a.frames := by
  cases turn is with
  | @code i _ _ _ _ own deed beside =>
    have plain : i.call? = none ∧ i.returns = false := by
      rcases own with rfl | ⟨next, executes⟩
      · exact ⟨rfl, rfl⟩
      · exact plain i next executes
    obtain ⟨s, u, first, act, last⟩ := deed
    rw [beside.frames, last.act.frames]
    cases act with
    | aside | self => exact first.act.frames
    | call calls | away calls => rw [plain.1] at calls; cases calls
    | back returns => rw [plain.2] at returns; cases returns
  | miss beside => exact beside.frames
  | leave left => exact absurd left.length (Nat.lt_irrefl _)

/-- Only calls and returns change the frames. -/
theorem frames_of_step (is : step w (.code a) below = .running w' (.code b) below) :
    b.frames.size + closes w a = a.frames.size + opens w a ∧
      (opens w a = closes w a → b.frames = a.frames) := by
  have kept (plain : ∀ i next, Executes w a i next → i.call? = none ∧ i.returns = false) :
      b.frames.size + 0 = a.frames.size + 0 ∧ (0 = 0 → b.frames = a.frames) :=
    ⟨by rw [kept_of_step is plain], fun _ => kept_of_step is plain⟩
  unfold opens closes
  unfold Executes at kept
  cases met : Fetch.instrAt (w.instances.getD a.inst default).code a.pc with
  | error => exact kept (by rw [met]; rintro _ _ ⟨⟩)
  | ok fetched =>
    obtain ⟨fetched, next⟩ := fetched
    cases fetched with
    | table => exact kept (by rw [met]; rintro _ _ ⟨⟩)
    | instr i =>
      dsimp only
      cases calls : i.call? with
      | some passed =>
        have stays := Instr.returns_of_calls (i := i) (by rw [calls]; rfl)
        obtain ⟨opens, same⟩ := called_of_step met calls is
        by_cases undisturbed : Uninterrupted w a
        · obtain ⟨_, _, _, _, _, rfl⟩ := opens undisturbed
          rw [stays, if_neg Bool.false_ne_true, if_pos ⟨rfl, undisturbed⟩]
          exact ⟨Array.size_push .., nofun⟩
        · rw [stays, if_neg Bool.false_ne_true, if_neg fun both => undisturbed both.2,
            same undisturbed]
          exact ⟨rfl, fun _ => rfl⟩
      | none =>
        cases returns : i.returns with
        | false => exact kept (by rw [met]; rintro _ _ ⟨⟩; exact ⟨calls, returns⟩)
        | true =>
          cases i with
          | ret src =>
            obtain ⟨pc, t, ⟨_, closed⟩, rfl⟩ :=
              went ((leads_fetched (r := ⟨w, a⟩) met).2 (leads_ret a.pc next src))
                (fun _ _ h => h.1) is
            exact ⟨closed pc rfl, nofun⟩
          | _ => cases returns

/-- A run of code and of what it has on top of it, with the calls and the returns that the code
makes itself. -/
inductive Tallies (below : List Task) (w : World) (a : Activation) :
    Nat → Nat → World → Task → List Task → Prop
  | start : Tallies below w a 0 0 w (.code a) below
  | own {calls returns : Nat} {w₁ w₂ : World} {b c : Activation}
      (first : Tallies below w a calls returns w₁ (.code b) below)
    (is : step w₁ (.code b) below = .running w₂ (.code c) below) :
    Tallies below w a (calls + opens w₁ b) (returns + closes w₁ b) w₂ (.code c) below
  | other {calls returns : Nat} {w₁ w₂ : World} {top top' : Task} {rest rest' : List Task}
    (first : Tallies below w a calls returns w₁ top rest)
    (is : step w₁ top rest = .running w₂ top' rest')
    (long : below.length ≤ rest'.length) (away : ¬ (rest = below ∧ rest' = below)) :
    Tallies below w a calls returns w₂ top' rest'

/-- Calls open one frame each and returns close one, and nothing else changes their number. -/
theorem Tallies.frames {calls returns : Nat} {top : Task} {rest : List Task}
    (counts : Tallies below w a calls returns w' top rest) :
    ∃ above b, top :: rest = above ++ .code b :: below ∧
      b.frames.size + returns = a.frames.size + calls := by
  induction counts with
  | start => exact ⟨[], a, rfl, rfl⟩
  | @own calls returns w₁ w₂ b c first is ih =>
    obtain ⟨above, d, tasks, sum⟩ := ih
    cases eq_of_alone tasks
    have one := (frames_of_step is).1
    exact ⟨[], c, rfl, by omega⟩
  | @other calls returns w₁ w₂ top top' rest rest' first is long away ih =>
    obtain ⟨above, b, tasks, sum⟩ := ih
    cases above with
    | cons t above =>
      cases tasks
      rcases (turn is).above long with ⟨above', rfl⟩ | ⟨c, beside, rfl, rfl⟩
      · exact ⟨top' :: above', b, rfl, sum⟩
      · exact ⟨[], c, rfl, beside.frames ▸ sum⟩
    | nil =>
      cases tasks
      cases turn is with
      | code | miss => exact absurd ⟨rfl, rfl⟩ away
      | exit beside => exact ⟨[_], _, rfl, beside.frames ▸ sum⟩
      | leave left => exact absurd left.length (Nat.not_lt_of_le long)

/-- In every state of a run the frames of code lie one above another, and its slots are those of the
frames. While a call is under way, the slots that were there before are not written, whatever the
callee does, calls, or has host functions do. When it has returned, they are as they were, but for
the slot of the result, and the caller's instance goes on, with the code that it had. -/
theorem calls_keep_frames {w₀ w : World} {id entry : Nat} {args : Array Slot}
    {want : Option ValType} {top : Task}
    {below : List Task}
    (reaches : Reaches w₀ (.code (w₀.activation id entry args want)) [] w top below) :
    (∀ a, .code a ∈ top :: below → a.Stacked ∧ a.windows.flatten = a.slots.toList) ∧
    ∀ (a b : Activation) w' i next passed dst, top = .code a → Executes w a i next →
      i.call? = some (passed, dst) →
      step w top below = .running w' (.code b) below → a.frames.size < b.frames.size →
      (∀ w₁ top₁ rest, StaysAbove below a.frames.size w' (.code b) below w₁ top₁ rest → ∃ above c,
        top₁ :: rest = above ++ .code c :: below ∧ ∀ k < a.slots.size, c.slots[k]? = a.slots[k]?) ∧
      ∀ value w₁ a', Returns below a.frames.size w' (.code b) below value w₁ a' →
        a'.frames = a.frames ∧ a'.slots.size = a.slots.size ∧
        (∀ k, dst = noSlot ∨ k ≠ a.base + dst → a'.slots[k]? = a.slots[k]?) ∧
        (dst ≠ noSlot → value.isSome ∧ a'.slots[a.base + dst]? = value) ∧
        a'.base = a.base ∧ a'.inst = a.inst ∧ a'.pc = next ∧ ∀ m code, w.Has a.inst m code →
          w₁.Has a'.inst m code := by
  have stacked : AllStacked (top :: below) := reaches.stacked fun a mem => by
    cases mem_singleton.1 mem
    exact activation_stacked _ _ _ _
  refine ⟨fun a mem => ⟨stacked a mem, (stacked a mem).flatten⟩, ?_⟩
  rintro a b w' i next passed dst rfl executes calls is deeper
  obtain ⟨frame, owner, rfl, rfl, home, under⟩ := under_call executes calls is deeper
  refine ⟨fun w₁ top₁ rest stays => ?_, fun value w₁ a' returns => ?_⟩
  · obtain ⟨above, c, tasks, higher⟩ := stays.under under
    refine ⟨above, c, tasks, fun k lt => ?_⟩
    rw [Array.getElem?_eq_getElem lt]
    exact higher.slots k _ (Array.getElem?_eq_getElem lt)
  · obtain ⟨some', act⟩ := returns.caller under (stacked a (by simp)).framed home
    have moves := (running_moves is).trans (returns_moves returns)
    rw [act]
    unfold Activation.set
    split
    · rename_i none'
      exact ⟨rfl, rfl, fun _ _ => rfl, absurd none', rfl, rfl, rfl,
        fun _ _ => World.Moves.has moves⟩
    · rename_i there
      obtain ⟨⟨v, rfl⟩, fits⟩ := some' there
      refine ⟨rfl, Array.size_setIfInBounds, fun k other => ?_, fun _ => ⟨rfl, ?_⟩, rfl, rfl, rfl,
        fun _ _ => World.Moves.has moves⟩
      · exact Array.getElem?_setIfInBounds_ne (Ne.symm (other.resolve_left there))
      · exact Array.getElem?_setIfInBounds_self_of_lt fits

/-- An instance whose code calls a function that answers its argument. -/
def echoing : World :=
  { instances := #[{ (default : Instance) with
      code :=
        ⟨((Instr.call 22 [0] 1).encode ++ (Instr.ret 1).encode ++ (Instr.ret 0).encode).toArray⟩ }] }

theorem calls_keep_frames_echoing : ∃ a b a', Executes echoing a (.call 22 [0] 1) 17 ∧
    step echoing (.code a) [] = .running echoing (.code b) [] ∧ b.windows = [[7, 0],
      [7]] ∧ b.windows.flatten = b.slots.toList ∧
    Returns [] a.frames.size echoing (.code b) [] (some 7) echoing a' ∧
      a'.slots.size = a.slots.size ∧
    a'.slots[0]? = a.slots[0]? ∧ a'.slots[1]? = some 7 ∧ a'.inst = a.inst ∧ a'.pc = 17 := by
  let a := echoing.activation 0 0 #[7, 0] none
  let b := a.called [7] 1 17 22 0 none
  have executes : Executes echoing a (.call 22 [0] 1) 17 := by unfold a; rfl
  have answers : Executes echoing b (.ret 0) 27 := by unfold b a; rfl
  have is : step echoing (.code a) [] = .running echoing (.code b) [] := by unfold b a; rfl
  have back : step echoing (.code b) [] = .running echoing (.code { a.set 1 7 with pc := 17 }) [] :=
    by unfold b a; rfl
  have returns :
      Returns [] a.frames.size echoing (.code b) [] (some 7) echoing { a.set 1 7 with pc := 17 } :=
    .now (by decide) ⟨0, 27, answers, rfl⟩ back
  have first := (calls_keep_frames (.step .refl is)).1 b (mem_singleton_self _)
  obtain ⟨_, size, rest, result, _, inst, pc, _⟩ :=
    ((calls_keep_frames .refl).2 a b echoing _ 17 [0] 1 rfl executes rfl is (by decide)).2
      _ _ _ returns
  exact ⟨a, b, _, executes, is, by decide, first.2, returns, size, rest 0 (by decide),
    (result (by decide)).2, inst, pc⟩

end Machine
end Wasmill

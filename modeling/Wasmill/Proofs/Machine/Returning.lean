import Wasmill.Proofs.Machine.Turning

/-! Calls that return.

While a call is under way, whatever the callee does, calls, or has host functions do, the frames of
its caller and what is in them stay as they were. So a call that returns has assigned the slot for
its result and nothing else. -/
namespace Wasmill
open Code Steps Array

namespace Activation
variable {a b c : Activation} {frame : Frame} {owner : Nat} {r : Running}

/-- The instance that a frame runs code of, from that of the innermost one and the frames above it.
-/
def home (inst : Nat) (more : List Frame) : Nat := more.foldr (fun f i => f.caller.getD i) inst

/-- The frame was opened above those of `a` for code of `owner`, and `b` runs in it or above it. -/
structure Above (a : Activation) (frame : Frame) (owner : Nat) (b : Activation) : Prop where
  bottom : frame.base = a.slots.size
  frames : ∃ more, b.frames.toList = a.frames.toList ++ frame :: more ∧ home b.inst more = owner ∧
    ∀ f ∈ more, a.slots.size ≤ f.base
  framed : b.Framed
  slots : ∀ (k : Nat) v, a.slots[k]? = some v → b.slots[k]? = some v
  rest : b.maxDepth = a.maxDepth ∧ b.signals = a.signals ∧ b.want = a.want ∧ b.first = a.first

theorem back?_toList (a : Activation) : a.frames.back? = a.frames.toList.getLast? := by
  rw [getLast?_toList]

section
variable (h : a.Above frame owner b)
include h

theorem Above.size : a.slots.size ≤ b.slots.size := by
  rcases Nat.eq_zero_or_pos a.slots.size with zero | pos
  · omega
  · have last : a.slots.size - 1 < a.slots.size := by omega
    have kept := h.slots (a.slots.size - 1) _ (getElem?_eq_getElem last)
    have := (Array.getElem?_eq_some_iff.1 kept).1
    omega

theorem Above.base : a.slots.size ≤ b.base := by
  obtain ⟨more, frames, _, high⟩ := h.frames
  have framed := h.framed
  unfold Framed at framed
  obtain ⟨last, is, base⟩ := Option.map_eq_some_iff.1 framed
  rw [back?_toList, frames, List.getLast?_append] at is
  have mem : last ∈ frame :: more := by
    cases got : (frame :: more).getLast? with
    | none => simp at got
    | some f =>
      rw [got] at is
      cases is
      exact List.mem_of_getLast? got
  rw [← base]
  rcases List.mem_cons.1 mem with rfl | mem
  · exact Nat.le_of_eq h.bottom.symm
  · exact high last mem

theorem Above.beside (beside : b.Beside c) : a.Above frame owner c := by
  have base := h.base
  obtain ⟨bottom, frames, framed, slots, rest⟩ := h
  refine ⟨bottom, ?_, ?_, fun k v is => ?_, ?_⟩
  · rw [beside.frames, beside.inst]
    exact frames
  · unfold Framed
    rw [beside.frames, beside.base]
    exact framed
  · exact beside.below k (Nat.lt_of_lt_of_le (Array.getElem?_eq_some_iff.1 is).1 base) v
      (slots k v is)
  · rw [beside.act]
    exact rest

end

theorem called_framed (a : Activation) (args : List Slot) (dst returnPc pc owner : Nat)
    (caller : Option Nat) :
    (a.called args dst returnPc pc owner caller).Framed := by
  unfold Framed called
  simp

/-- A call opens a frame. -/
theorem above_called (a : Activation) (args : List Slot) (dst returnPc pc owner : Nat)
    (caller : Option Nat) :
    a.Above { base := a.slots.size, returnPc, dst, caller } owner
      (a.called args dst returnPc pc owner caller) := by
  refine ⟨rfl, ⟨[], ?_, rfl, nofun⟩, called_framed .., fun k v is => ?_, rfl, rfl, rfl, rfl⟩
  · unfold called
    simp
  · show (a.slots ++ args.toArray)[k]? = some v
    rw [getElem?_append_left (Array.getElem?_eq_some_iff.1 is).1]
    exact is

theorem Above.called (h : a.Above frame owner b) (args : List Slot) (dst returnPc pc : Nat)
    {callee : Nat} {caller : Option Nat}
    (from' : caller.getD callee = b.inst) :
    a.Above frame owner (b.called args dst returnPc pc callee caller) := by
  obtain ⟨more, frames, same, high⟩ := h.frames
  refine ⟨h.bottom, ⟨more ++ [{ base := b.slots.size, returnPc, dst, caller }], ?_, ?_,
    fun f mem => ?_⟩, called_framed .., fun k v is => ?_, h.rest⟩
  · show (b.frames.push _).toList = _
    rw [toList_push, frames]
    simp
  · show home callee _ = owner
    unfold home
    rw [List.foldr_append]
    show home (caller.getD callee) more = owner
    rw [from', same]
  · rcases List.mem_append.1 mem with mem | mem
    · exact high f mem
    · rw [List.mem_singleton.1 mem]
      exact h.size
  · have kept := h.slots k v is
    show (b.slots ++ args.toArray)[k]? = some v
    rw [getElem?_append_left (Array.getElem?_eq_some_iff.1 kept).1]
    exact kept

theorem getElem?_shrink {α : Type} {xs : Array α} {n k : Nat} (lt : k < n) :
    (xs.shrink n)[k]? = xs[k]? := by
  rw [shrink_eq_take, take_eq_extract, getElem?_extract]
  simp only [Nat.sub_zero, Nat.zero_add]
  split
  · rfl
  · rw [getElem?_eq_none]
    omega

theorem closed_act (r : Running) (frame : Frame) (base : Nat) : (Exec.closed r frame base).act =
    { r.act with frames := r.act.frames.pop, slots := r.act.slots.shrink frame.base, base, inst :=
  frame.caller.getD r.act.inst } := by
  unfold Exec.closed
  cases frame.caller <;> rfl

theorem toList_pop_of_back? {xs : Array Frame} {f : Frame} (is : xs.back? = some f) :
    xs.toList = xs.pop.toList ++ [f] := by
  obtain ⟨rest, rfl⟩ := back?_eq_some_iff.1 is
  simp

/-- A frame above is closed. -/
theorem Above.closed (h : a.Above frame owner r.act) {last below : Frame}
    (is : r.act.frames.back? = some last)
    (under : r.act.frames.pop.back? = some below) (deeper : a.frames.size + 1 < r.act.frames.size) :
    a.Above frame owner (Exec.closed r last below.base).act := by
  obtain ⟨more, frames, same, high⟩ := h.frames
  have split := toList_pop_of_back? is
  have more' : ∃ front, more = front ++ [last] ∧
      r.act.frames.pop.toList = a.frames.toList ++ frame :: front := by
    rcases List.eq_nil_or_concat more with rfl | ⟨front, f, is'⟩
    · have count := congrArg List.length frames
      simp at count
      omega
    · rw [List.concat_eq_append] at is'
      rw [split, is', ← List.cons_append, ← List.append_assoc] at frames
      obtain ⟨front', same'⟩ := List.append_inj' frames rfl
      cases same'
      exact ⟨front, is', front'⟩
  obtain ⟨front, rfl, popped⟩ := more'
  have lastBase := high last (List.mem_append_right _ (List.mem_singleton_self _))
  rw [closed_act]
  refine ⟨h.bottom, ⟨front, popped, ?_, fun f mem => high f (List.mem_append_left _ mem)⟩, ?_,
    fun k v is => ?_, h.rest⟩
  · unfold home at same ⊢
    rw [List.foldr_append] at same
    exact same
  · unfold Framed
    rw [under]
    rfl
  · have lt := (Array.getElem?_eq_some_iff.1 is).1
    show (r.act.slots.shrink last.base)[k]? = some v
    rw [getElem?_shrink (Nat.lt_of_lt_of_le lt lastBase)]
    exact h.slots k v is

/-- The frame itself is closed: its caller is as it was. -/
theorem Above.returned (h : a.Above frame owner r.act) (framed : a.Framed) {last below : Frame}
    (is : r.act.frames.back? = some last) (under : r.act.frames.pop.back? = some below)
    (home : frame.caller.getD owner = a.inst)
    (one : r.act.frames.size = a.frames.size + 1) :
    last = frame ∧ (Exec.closed r last below.base).act = { a with
      pc := r.act.pc, faultPc := r.act.faultPc, pending := r.act.pending } := by
  obtain ⟨more, frames, same, _⟩ := h.frames
  have none' : more = [] := by
    have count := congrArg List.length frames
    simp at count
    exact List.length_eq_zero_iff.1 (by omega)
  subst none'
  rw [toList_pop_of_back? is] at frames
  obtain ⟨front, same'⟩ := List.append_inj' frames rfl
  cases same'
  have popped : r.act.frames.pop = a.frames := toList_inj.1 front
  refine ⟨rfl, ?_⟩
  have inst : r.act.inst = owner := same
  have slots : r.act.slots.shrink frame.base = a.slots := by
    refine ext_getElem? fun k => ?_
    rcases Nat.lt_or_ge k a.slots.size with lt | ge
    · rw [getElem?_shrink (by rw [h.bottom]; exact lt), getElem?_eq_getElem lt]
      exact h.slots k _ (getElem?_eq_getElem lt)
    · rw [getElem?_eq_none ge, getElem?_eq_none]
      rw [size_shrink, h.bottom]
      omega
  have base : below.base = a.base := by
    rw [popped] at under
    unfold Framed at framed
    rw [under] at framed
    exact Option.some.inj framed
  obtain ⟨maxDepth, signals, want, first⟩ := h.rest
  rw [closed_act, popped, slots, base, inst, home]
  cases a
  simp_all

end Activation

namespace Machine
open Exec Activation
variable {value : Option Slot}

/-- On top of these tasks something else goes on, or code that is deeper in calls than that. -/
def Deeper (below : List Task) (depth : Nat) (top : Task) (rest : List Task) : Prop :=
  below <:+ rest ∧ (rest = below → ∃ b, top = .code b ∧ depth < b.frames.size)

/-- What the instruction returns that comes next. -/
def Returning (w : World) (b : Activation) (value : Option Slot) : Prop :=
  ∃ src next, Executes w b (.ret src) next ∧
    value = if src = noSlot then none else b.slot? src

/-- The machine comes to the return from the frame above that depth, and back to it. -/
inductive Returns (below : List Task) (depth : Nat) :
    World → Task → List Task → Option Slot → World → Activation → Prop
  | now {w w' : World} {b a' : Activation} {value : Option Slot} (one : b.frames.size = depth + 1)
      (returning : Returning w b value)
    (is : step w (.code b) below = .running w' (.code a') below) :
    Returns below depth w (.code b) below value w' a'
  | later {w w₁ w' : World} {top top₁ : Task} {rest rest₁ : List Task} {value : Option Slot}
      {a' : Activation}
    (is : step w top rest = .running w₁ top₁ rest₁) (deeper : Deeper below depth top₁ rest₁)
    (back : Returns below depth w₁ top₁ rest₁ value w' a') :
    Returns below depth w top rest value w' a'

/-- The call that `a` made into the frame is under way. -/
def Under (a : Activation) (frame : Frame) (owner : Nat) (below : List Task) (top : Task)
    (rest : List Task) : Prop :=
  ∃ above b, top :: rest = above ++ .code b :: below ∧ a.Above frame owner b

variable {a b : Activation} {frame : Frame} {owner : Nat} {below rest rest' : List Task}
  {w w' : World} {top top' : Task}

theorem eq_of_alone {above : List Task} (tasks : top :: below = above ++ .code b :: below) :
    top = .code b := by
  cases above with
  | nil => exact (List.cons.inj tasks).1
  | cons t above =>
    have count := congrArg List.length tasks
    simp only [List.length_append, List.length_cons] at count
    omega

theorem Left.above {above : List Task} (left : Left (above ++ .code b :: below) top' rest') :
    (∃ above', rest' = above' ++ .code b :: below) ∨ ∃ c, b.Beside c ∧ top' = .code c ∧
      rest' = below := by
  generalize is : above ++ .code b :: below = tasks at left
  cases left with
  | answer =>
    cases above with
    | nil => cases is
    | cons t above =>
      cases is
      exact .inl ⟨above, rfl⟩
  | fail beside =>
    cases above with
    | nil => cases is
    | cons t above =>
      cases above with
      | nil =>
        cases is
        exact .inr ⟨_, beside, rfl, rfl⟩
      | cons t' above =>
        cases is
        exact .inl ⟨above, rfl⟩

/-- What is on top of code runs without it, until that is resumed. -/
theorem Turn.above {above : List Task} (turn : Turn w top (above ++ .code b :: below) top' rest')
    (long : below.length ≤ rest'.length) :
    (∃ above', rest' = above' ++ .code b :: below) ∨ ∃ c, b.Beside c ∧ top' = .code c ∧
      rest' = below := by
  generalize is : above ++ .code b :: below = tasks at turn
  cases turn with
  | code | miss => exact .inl ⟨above, is.symm⟩
  | exit beside =>
    rename_i c _
    exact .inl ⟨.code c :: above, by rw [← is]; rfl⟩
  | host => exact .inl ⟨above, is.symm⟩
  | enter stacked =>
    rename_i h' _
    exact .inl ⟨.host h' :: above, by rw [← is]; rfl⟩
  | leave left =>
    rw [← is] at left
    exact left.above
  | resume beside =>
    cases above with
    | nil =>
      cases is
      exact .inr ⟨_, beside, rfl, rfl⟩
    | cons t above =>
      cases is
      exact .inl ⟨above, rfl⟩
  | lose left =>
    cases above with
    | nil =>
      cases is
      exact absurd left.length (Nat.not_lt_of_le long)
    | cons t above =>
      cases is
      exact left.above

/-- A frame stays open as long as the machine is deeper than its caller. -/
theorem above_deed {i : Instr} {t : Running} (h : a.Above frame owner b) (deed : Deed i ⟨w, b⟩ t)
    (deeper : a.frames.size < t.act.frames.size) : a.Above frame owner t.act := by
  obtain ⟨r, u, first, act, last⟩ := deed
  have h := h.beside first.act
  rw [last.act.frames] at deeper
  refine Above.beside ?_ last.act
  cases act with
  | aside | self => exact h
  | call _ args dst returnPc | away _ args dst returnPc => exact h.called args dst returnPc _ rfl
  | back _ is under =>
    refine h.closed is under ?_
    rw [closed_act] at deeper
    have : r.act.frames.pop.size = r.act.frames.size - 1 := size_pop
    show a.frames.size + 1 < r.act.frames.size
    have deeper : a.frames.size < r.act.frames.pop.size := deeper
    omega

/-- Steps that keep the machine deeper keep the call under way. -/
theorem Under.step (h : Under a frame owner below top rest)
    (is : step w top rest = .running w' top' rest')
    (deeper : Deeper below a.frames.size top' rest') : Under a frame owner below top' rest' := by
  obtain ⟨above, b, tasks, higher⟩ := h
  have turn := turn is
  obtain ⟨suffix, here⟩ := deeper
  have long := suffix.length_le
  have resumed : ∀ c, b.Beside c → top' = .code c → rest' = below →
      Under a frame owner below top' rest' := by
    rintro c beside rfl rfl
    exact ⟨[], c, rfl, higher.beside beside⟩
  cases above with
  | cons t above =>
    cases tasks
    rcases turn.above long with ⟨above', rfl⟩ | ⟨c, beside, resume, same⟩
    · exact ⟨top' :: above', b, rfl, higher⟩
    · exact resumed c beside resume same
  | nil =>
    cases tasks
    cases turn with
    | code _ deed beside =>
      obtain ⟨c, is, more⟩ := here rfl
      cases is
      rw [beside.frames] at more
      exact ⟨[], _, rfl, (above_deed higher deed more).beside beside⟩
    | miss beside => exact ⟨[], _, rfl, higher.beside beside⟩
    | exit beside => exact ⟨[_], _, rfl, higher.beside beside⟩
    | leave left => exact absurd left.length (Nat.not_lt_of_le long)

/-- Execution goes on behind the call that made the frame, with the result in its slot. -/
def Back (a : Activation) (frame : Frame) (value : Option Slot) (next : Next)
    (t : Running) : Prop :=
  next = .finish value ∨ next = .go frame.returnPc ∧
    (frame.dst ≠ noSlot → (∃ v, value = some v) ∧ a.base + frame.dst < a.slots.size) ∧
    t.act = { a.set frame.dst
      (value.getD 0) with pc := t.act.pc, faultPc := t.act.faultPc, pending := t.act.pending }

/-- The return from a frame goes back to its caller. -/
theorem leads_return (higher : a.Above frame owner b) (framed : a.Framed)
    (home : frame.caller.getD owner = a.inst)
    (one : b.frames.size = a.frames.size + 1) (returning : Returning w b value) :
    Leads Exec.step ⟨w, b⟩ (Back a frame value) fun _ _ => True := by
  obtain ⟨src, next, met, rfl⟩ := returning
  have popped : ∀ value, Leads (popFrame value) ⟨w, b⟩ (Back a frame value) fun _ _ => True := by
    intro value
    rw [leads_popFrame]
    split
    · trivial
    · rename_i last is
      split
      · exact .inl rfl
      · rename_i under under'
        obtain ⟨rfl, act⟩ := higher.returned (r := ⟨w, b⟩) framed is under' home one
        split
        · rename_i none'
          refine .inr ⟨rfl, fun some' => absurd none' some', ?_⟩
          rw [act]
          unfold Activation.set
          rw [if_pos none']
        · split
          · rename_i v
            rw [leads_setSlot, act]
            split
            · rename_i fits
              refine .inr ⟨rfl, fun some' => ⟨⟨v, rfl⟩, fits.resolve_left some'⟩, ?_⟩
              dsimp only
              unfold Activation.set
              split <;> rfl
            · trivial
          · trivial
  rw [leads_fetched (r := ⟨w, b⟩) met, instr, result]
  by_cases none' : src = noSlot
  · rw [if_pos none', if_pos none', leads_bind, leads_pure]
    exact popped none
  · rw [if_neg none', if_neg none', leads_bind, leads_bind, leads_slot]
    split
    · rename_i v is
      have is : b.slot? src = some v := is
      rw [leads_pure, is]
      exact popped (some v)
    · trivial

/-- A call that returns has assigned the slot for its result, and nothing else that its caller could
see. -/
theorem Returns.caller (returns : Returns below a.frames.size w top rest value w' b)
    (under : Under a frame owner below top rest)
    (framed : a.Framed) (home : frame.caller.getD owner = a.inst) :
    (frame.dst ≠ noSlot → (∃ v, value = some v) ∧ a.base + frame.dst < a.slots.size) ∧
    b = { a.set frame.dst (value.getD 0) with pc := frame.returnPc, faultPc := b.faultPc, pending :=
  b.pending } := by
  induction returns with
  | later is deeper back ih => exact ih (under.step is deeper)
  | now one returning is =>
    rename_i w w' c b value
    obtain ⟨above, c', tasks, higher⟩ := under
    cases eq_of_alone tasks
    have ends := leads_return higher framed home one returning
    obtain ⟨pc, t, go | ⟨go, some', act⟩, rfl⟩ :=
      went ends (by rintro _ _ (rfl | ⟨rfl, _⟩) <;> rfl) is
    · cases go
    · cases go
      refine ⟨some', ?_⟩
      rw [act]

end Machine
end Wasmill

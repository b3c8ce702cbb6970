import Wasmill.Proofs.Ssa.Prune
import Wasmill.Proofs.Steps
import Wasmill.Ssa.Control

/-! States of compiling a body, and what the single operations make of them.

`Builder.Sound` says what holds between two operators: locals and operands are values of the
function, edges that wait exist and wait, and a loop header is entered by the edges its frame knows.
-/
namespace Wasmill.Ssa
open Steps List Ssa.Function

/-! ### Taking apart a run -/

namespace Build
variable {α : Type} {s t : Builder}

@[simp] theorem broken_apply (cause : Broken) :
    (broken cause : Build α) s = .error (.internal cause) :=
  rfl

@[simp] theorem invalid_apply (fault : Fault) :
    (invalid fault : Build α) s = .error (.invalid fault s.srcloc) := rfl

theorem pop_ok {v : Value} (h : pop s = .ok (v, t)) :
    ∃ rest, s.stack = v :: rest ∧ t = { s with stack := rest } := by
  simp only [pop] at h
  cases stack : s.stack with
  | nil => simp [bind_apply _ get_apply, stack] at h
  | cons w rest =>
    simp only [bind_apply _ get_apply, stack, bind_apply _ set_apply, pure_apply] at h
    cases h
    exact ⟨rest, rfl, rfl⟩

theorem peek_ok {v : Value} (h : peek s = .ok (v, t)) : (∃ rest, s.stack = v :: rest) ∧ t = s := by
  simp only [peek] at h
  cases stack : s.stack with
  | nil => simp [bind_apply _ get_apply, stack] at h
  | cons w rest =>
    simp only [bind_apply _ get_apply, stack, pure_apply] at h
    cases h
    exact ⟨⟨rest, rfl⟩, rfl⟩

theorem popMany_ok {n : Nat} {vs : List Value} (h : popMany n s = .ok (vs, t)) :
    n ≤ s.stack.length ∧ vs = (s.stack.take n).reverse ∧
      t = { s with stack := s.stack.drop n } := by
  simp only [popMany, bind_apply _ get_apply] at h
  split at h
  · simp at h
  · next enough =>
    simp only [bind_apply _ set_apply, pure_apply] at h
    cases h
    exact ⟨Nat.le_of_not_lt enough, rfl, rfl⟩

/-- The result of a block: the topmost operand, if there is to be one. -/
theorem popResult_ok {ty : Option ValType} {v : Option Value} (h : popResult ty s = .ok (v, t)) :
    (ty = none ∧ v = none ∧ t = s) ∨
      ∃ ty' w rest, ty = some ty' ∧ v = some w ∧ s.stack = w :: rest ∧
        t = { s with stack := rest } := by
  cases ty with
  | none =>
    simp only [popResult, Option.isSome_none, Bool.false_eq_true, if_false, pure_apply] at h
    cases h
    exact .inl ⟨rfl, rfl, rfl⟩
  | some ty =>
    simp only [popResult, Option.isSome_some, if_true] at h
    obtain ⟨w, t', popped, same⟩ := map_ok h
    obtain ⟨rest, stack, rfl⟩ := pop_ok popped
    cases same
    exact .inr ⟨ty, w, rest, rfl, rfl, stack, rfl⟩

theorem peekResult_ok {ty : Option ValType} {v : Option Value} (h : peekResult ty s = .ok (v, t)) :
    t = s ∧ ((ty = none ∧ v = none) ∨ ∃ ty' w rest,
      ty = some ty' ∧ v = some w ∧ s.stack = w :: rest) := by
  cases ty with
  | none =>
    simp only [peekResult, Option.isSome_none, Bool.false_eq_true, if_false, pure_apply] at h
    cases h
    exact ⟨rfl, .inl ⟨rfl, rfl⟩⟩
  | some ty =>
    simp only [peekResult, Option.isSome_some, if_true] at h
    obtain ⟨w, t', peeked, same⟩ := map_ok h
    obtain ⟨⟨rest, stack⟩, rfl⟩ := peek_ok peeked
    cases same
    exact ⟨rfl, .inr ⟨ty, w, rest, rfl, rfl, stack⟩⟩

theorem frameAt_ok {depth : Nat} {frame : Frame} (h : frameAt depth s = .ok (frame, t)) :
    s.control[depth]? = some frame ∧ t = s := by
  simp only [frameAt, bind_apply _ get_apply] at h
  cases found : s.control[depth]? with
  | none => simp [found] at h
  | some fr => simp only [found, pure_apply] at h; cases h; exact ⟨rfl, rfl⟩

end Build

namespace Builder

/-- With an instruction more in the current block `b`. -/
def appended (s : Builder) (b : Nat) (inst : Inst) (result : Option Value) : Builder :=
  { s with func := s.func.modifyBlock b fun block =>
      { block with steps := block.steps.push { inst, result, srcloc := s.srcloc } } }

/-- With an instruction more in block `b`, and its result, if it has one, as an operand more. -/
def emitted (s : Builder) (b : Nat) (inst : Inst) : Option ValType → Builder
  | none => s.appended b inst none
  | some ty =>
    { ({ s with func := (s.func.newValue ty).2 }.appended b inst (some s.func.values.size)) with
      stack := s.func.values.size :: s.stack }

/-- With block `b` left, and nothing to go on with. -/
def left (s : Builder) (b : Nat) (exit : Exit) : Builder :=
  { s with
    func := s.func.modifyBlock b fun block => { block with leave := some ⟨exit, s.srcloc⟩ }
    current := none }

end Builder

namespace Build
variable {s t : Builder} {b : Nat}

section
variable (live : s.current = some b)
include live

theorem append_apply (inst : Inst) (result : Option Value) :
    append inst result s = .ok ((), s.appended b inst result) := by
  simp [append, live, Builder.appended]

theorem value_apply (inst : Inst) (ty : ValType) : value inst ty s =
      .ok (s.func.values.size, { s.emitted b inst (some ty) with stack := s.stack }) := by
  simp only [value, bind_apply _ get_apply, bind_apply _ set_apply]
  have grown : { s with func := (s.func.newValue ty).2 }.current = some b := live
  exact bind_apply _ (append_apply grown inst _)

theorem emit_apply (inst : Inst) (ty : Option ValType) :
    emit inst ty s = .ok ((), s.emitted b inst ty) := by
  cases ty with
  | none => exact append_apply live inst none
  | some ty =>
    rw [emit, pushValue, bind_apply _ (value_apply live inst ty)]
    rfl

theorem leave_apply (exit : Exit) : leave exit s = .ok (b, s.left b exit) := by
  simp only [leave, bind_apply _ get_apply, live]
  rfl

end

@[simp] theorem newBlock_apply : newBlock s = .ok (s.func.blocks.size,
    { s with func := s.func.newBlock.2 }) := rfl

@[simp] theorem newParam_apply (ty : ValType) :
    newParam b ty s = .ok (s.func.values.size, { s with func := (s.func.newParam b ty).2 }) := rfl

@[simp] theorem isDead_apply : isDead s = .ok (s.current.isNone, s) := rfl

@[simp] theorem enter_apply : enter b s = .ok ((), { s with current := some b }) := rfl

@[simp] theorem push_apply (v : Value) : push v s = .ok ((),
    { s with stack := v :: s.stack }) := rfl

end Build

theorem after_pop {α : Type} {s : Builder} {v : Value} {rest : List Value} {g : Value → Build α}
    {r : α × Builder}
    (stack : s.stack = v :: rest) (h : (Build.pop >>= g) s = .ok r) :
    g v { s with stack := rest } = .ok r := by
  simpa [Build.pop, bind_apply _ get_apply, stack, bind_apply _ set_apply] using h

/-! ### Soundness -/

/-- Values of the given types. -/
structure Fits (f : Function) (types : Array ValType) (vs : Array Value) : Prop where
  size : vs.size = types.size
  lt : ∀ v : Nat, v ∈ vs → v < f.values.size
  ty : ∀ i v : Nat, vs[i]? = some v → types[i]? = some (f.valueTy v)

/-- A value of the given type, or none if there is to be none. -/
def Yields (f : Function) : Option ValType → Option Value → Prop
  | none, r => r = none
  | some ty, r => ∃ v : Nat, r = some v ∧ v < f.values.size ∧ f.valueTy v = ty

structure Pending.Sound (f : Function) (types : Array ValType) (result : Option ValType)
    (p : Pending) : Prop where
  waits : f.edgeAt? p.source = some none
  locals : Fits f types p.locals
  result : Yields f result p.result

/-- Edges in `extra` may lead to the header without being known to it. -/
structure LoopHeader.Sound (f : Function) (types : Array ValType) (extra : List EdgeRef)
    (h : LoopHeader) : Prop where
  ne_entry : h.block ≠ 0
  lt : h.block < f.blocks.size
  params : Fits f types (f.block h.block).params
  passes : ∀ r ∈ h.edges, ∃ args, f.edge? r = some ⟨h.block, args⟩ ∧ Fits f types args
  only : ∀ r e, f.edge? r = some e → e.block = h.block → r ∈ h.edges ∨ r ∈ extra
  once : h.edges.Nodup
  entered : ∃ args, f.edge? h.entry = some ⟨h.block, args⟩ ∧
    ∀ a p : Nat, a ∈ args → p ∈ (f.block h.block).params → a < p

namespace Frame

/-- The edge around the first arm of an `if`, as long as it has no other arm. -/
def around (frame : Frame) : List EdgeRef :=
  match frame.kind with
  | .ifBlock (some e) _ => [e]
  | _ => []

/-- The edges that wait for the frame to end. -/
def waiting (frame : Frame) : List EdgeRef := frame.around ++ frame.pending.toList.map (·.source)

def header? (frame : Frame) : Option Nat :=
  match frame.kind with
  | .loop (some h) => some h.block
  | _ => none

end Frame

/-- What holds of the open frames. -/
structure Framed (f : Function) (types : Array ValType) (extra : List EdgeRef)
    (control : List Frame) : Prop where
  pending : ∀ fr ∈ control, ∀ p ∈ fr.pending, p.Sound f types fr.result
  arms : ∀ fr ∈ control, ∀ e locals, fr.kind = .ifBlock (some e) locals →
    f.edgeAt? e = some none ∧ Fits f types locals
  loops : ∀ fr ∈ control, ∀ h, fr.kind = .loop (some h) → h.Sound f types extra
  waiting : (control.flatMap Frame.waiting).Nodup
  headers : (control.filterMap Frame.header?).Nodup

/-- What holds of an open frame. -/
structure Frame.Sound (f : Function) (types : Array ValType) (extra : List EdgeRef)
    (fr : Frame) : Prop where
  pending : ∀ p ∈ fr.pending, p.Sound f types fr.result
  arm : ∀ e locals, fr.kind = .ifBlock (some e) locals → f.edgeAt? e = some none ∧
    Fits f types locals
  loop : ∀ h, fr.kind = .loop (some h) → h.Sound f types extra

structure Builder.Sound (s : Builder) : Prop where
  func : s.func.Sound
  current : ∀ b, s.current = some b → b < s.func.blocks.size ∧ (s.func.block b).leave = none
  locals : Fits s.func s.localTypes s.locals
  stack : ∀ v : Nat, v ∈ s.stack → v < s.func.values.size
  control : Framed s.func s.localTypes [] s.control

section
variable {f g : Function} {types : Array ValType} {extra new : List EdgeRef} {control : List Frame}

theorem Fits.mono {vs : Array Value} (fits : Fits f types vs)
    (values : f.values.size ≤ g.values.size)
    (same : ∀ v : Nat, v < f.values.size → g.valueTy v = f.valueTy v) : Fits g types vs where
  size := fits.size
  lt v mem := Nat.lt_of_lt_of_le (fits.lt v mem) values
  ty i v at' := by rw [same v (fits.lt v (Array.mem_of_getElem? at'))]; exact fits.ty i v at'

theorem Yields.mono {ty : Option ValType} {r : Option Value} (yields : Yields f ty r)
    (values : f.values.size ≤ g.values.size)
    (same : ∀ v : Nat, v < f.values.size → g.valueTy v = f.valueTy v) : Yields g ty r := by
  cases ty with
  | none => exact yields
  | some ty =>
    obtain ⟨v, rfl, lt, is⟩ := yields
    exact ⟨v, rfl, Nat.lt_of_lt_of_le lt values, (same v lt).trans is⟩

theorem Yields.lt {ty : Option ValType} {r : Option Value} (yields : Yields f ty r) (v : Nat)
    (is : r = some v) :
    v < f.values.size := by
  subst is
  cases ty with
  | none => cases yields
  | some ty =>
    obtain ⟨_, same, lt, -⟩ := yields
    cases same
    exact lt

theorem LoopHeader.Sound.looped {h : LoopHeader} (sound : h.Sound f types []) :
    f.Looped h ∧ f.Suits h := by
  refine ⟨⟨sound.ne_entry, fun r mem => ?_, fun r e found same => ?_, sound.once,
    fun args edge => ?_⟩,
    fun r mem args edge i a p passed at' => ?_⟩
  · obtain ⟨args, edge, fits⟩ := sound.passes r mem
    exact ⟨args, edge, fits.size.trans sound.params.size.symm⟩
  · simpa using sound.only r e found same
  · obtain ⟨args', edge', older⟩ := sound.entered
    cases edge.symm.trans edge'
    exact older
  · obtain ⟨args', edge', fits⟩ := sound.passes r mem
    cases edge.symm.trans edge'
    exact Option.some.inj ((fits.ty i a passed).symm.trans (sound.params.ty i p at'))

theorem Framed.of_frames (frames : ∀ fr ∈ control, fr.Sound f types extra)
    (waiting : (control.flatMap Frame.waiting).Nodup)
    (headers : (control.filterMap Frame.header?).Nodup) : Framed f types extra control :=
  ⟨fun fr mem => (frames fr mem).pending, fun fr mem => (frames fr mem).arm,
    fun fr mem => (frames fr mem).loop, waiting, headers⟩

theorem Framed.frame (framed : Framed f types extra control) {fr : Frame} (mem : fr ∈ control) :
    fr.Sound f types extra :=
  ⟨framed.pending fr mem, framed.arms fr mem, framed.loops fr mem⟩

/-- An edge that leads elsewhere need not be known. -/
theorem LoopHeader.Sound.forget {h : LoopHeader} {r : EdgeRef}
    (sound : h.Sound f types (r :: extra))
    (apart : ∀ e, f.edge? r = some e → e.block ≠ h.block) : h.Sound f types extra := by
  refine { sound with only := fun r' e found same => ?_ }
  rcases sound.only r' e found same with known | listed
  · exact .inl known
  · rcases mem_cons.1 listed with rfl | later
    · exact absurd same (apart e found)
    · exact .inr later

theorem mem_waiting_of_pending {fr : Frame} {p : Pending} (mem : fr ∈ control)
    (inside : p ∈ fr.pending) :
    p.source ∈ control.flatMap Frame.waiting := by
  refine mem_flatMap.2 ⟨fr, mem, mem_append_right _ ?_⟩
  exact List.mem_map.2 ⟨p, Array.mem_def.1 inside, rfl⟩

theorem mem_waiting_of_arm {fr : Frame} {e : EdgeRef} {locals : Array Value} (mem : fr ∈ control)
    (kind : fr.kind = .ifBlock (some e) locals) : e ∈ control.flatMap Frame.waiting :=
  mem_flatMap.2 ⟨fr, mem, mem_append_left _ (by simp [Frame.around, kind])⟩

variable (framed : Framed f types extra control)
include framed

theorem Framed.waits {r : EdgeRef} (mem : r ∈ control.flatMap Frame.waiting) :
    f.edgeAt? r = some none := by
  obtain ⟨fr, inside, mem⟩ := mem_flatMap.1 mem
  rcases mem_append.1 mem with arm | waits
  · unfold Frame.around at arm
    split at arm
    · next e locals kind =>
      rw [mem_singleton] at arm
      subst arm
      exact (framed.arms fr inside _ _ kind).1
    · cases arm
  · obtain ⟨p, listed, rfl⟩ := List.mem_map.1 waits
    exact (framed.pending fr inside p (Array.mem_def.2 listed)).waits

/-- Frames stay sound when a function grows, as long as the edges that wait still do, and new edges
to a header are among `new`. -/
theorem Framed.adds (adds : f.Adds g)
    (waits : ∀ r ∈ control.flatMap Frame.waiting, g.edgeAt? r = some none)
    (fresh : ∀ r e, g.edge? r = some e → f.edge? r = some e ∨ r ∈ new ∨
      e.block ∉ control.filterMap Frame.header?) : Framed g types (extra ++ new) control where
  pending fr mem p inside := by
    have sound := framed.pending fr mem p inside
    exact ⟨waits _ (mem_waiting_of_pending mem inside), sound.locals.mono adds.values adds.types,
      sound.result.mono adds.values adds.types⟩
  arms fr mem e locals kind :=
    ⟨waits _ (mem_waiting_of_arm mem kind),
      (framed.arms fr mem e locals kind).2.mono adds.values adds.types⟩
  loops fr mem h kind := by
    have sound := framed.loops fr mem h kind
    obtain ⟨args, into, older⟩ := sound.entered
    have params := adds.params _ _ into
    refine
      { ne_entry := sound.ne_entry
        lt := Nat.lt_of_lt_of_le sound.lt adds.blocks
        params := by rw [params]; exact sound.params.mono adds.values adds.types
        passes := fun r inside => ?_, only := fun r e found same => ?_, once := sound.once
        entered := ⟨args, adds.edges _ _ into, by rw [params]; exact older⟩ }
    · obtain ⟨args, edge, fits⟩ := sound.passes r inside
      exact ⟨args, adds.edges _ _ edge, fits.mono adds.values adds.types⟩
    · rcases fresh r e found with old | listed | apart
      · rcases sound.only r e old same with known | left
        · exact .inl known
        · exact .inr (mem_append_left _ left)
      · exact .inr (mem_append_right _ listed)
      · refine absurd (mem_filterMap.2 ⟨fr, mem, ?_⟩) apart
        simp [Frame.header?, kind, same]
  waiting := framed.waiting
  headers := framed.headers

/-- Frames do not notice a change that leaves the edges alone. -/
theorem Framed.of_edges (adds : f.Adds g) (edges : ∀ r, g.edgeAt? r = f.edgeAt? r) :
    Framed g types extra control := by
  have grown : Framed g types (extra ++ []) control := framed.adds adds
    (fun r mem => (edges r).trans (framed.waits mem))
    (fun r e found => .inl (by rw [edge?_eq_join, ← edges, ← edge?_eq_join]; exact found))
  rwa [append_nil] at grown

end

/-! ### Telling frames about edges -/

namespace Frame

/-- With one more edge back to the header. -/
def backed (source : EdgeRef) (frame : Frame) : Frame :=
  match frame.kind with
  | .loop (some h) =>
    { frame with kind := .loop (some { h with backEdges := h.backEdges.push source }) }
  | _ => frame

/-- With one more edge that waits. -/
def pended (p : Pending) (frame : Frame) : Frame := { frame with pending := frame.pending.push p }

@[simp] theorem backed_header? (source : EdgeRef) (frame : Frame) :
    (frame.backed source).header? = frame.header? := by
  unfold backed
  split <;> simp_all [header?]

@[simp] theorem backed_waiting (source : EdgeRef) (frame : Frame) :
    (frame.backed source).waiting = frame.waiting := by
  unfold backed
  split <;> simp_all [waiting, around]

@[simp] theorem pended_header? (p : Pending) (frame : Frame) :
    (frame.pended p).header? = frame.header? := rfl

theorem pended_waiting (p : Pending) (frame : Frame) :
    (frame.pended p).waiting.Perm (p.source :: frame.waiting) := by
  simp only [waiting, pended, Array.toList_push, map_append, map_cons, map_nil]
  rw [← append_assoc]
  exact perm_append_singleton p.source _

end Frame

section
variable {α β : Type}

theorem getElem?_modify_cases {l : List α} {d j : Nat} {g : α → α} {x : α}
    (h : (l.modify d g)[j]? = some x) :
    (j = d ∧ ∃ y, l[d]? = some y ∧ x = g y) ∨ (j ≠ d ∧ l[j]? = some x) := by
  rw [getElem?_modify] at h
  obtain ⟨y, at', is⟩ := Option.map_eq_some_iff.1 h
  by_cases same : d = j
  · subst same
    exact .inl ⟨rfl, y, at', by simpa using is.symm⟩
  · simp only [if_neg same] at is
    exact .inr ⟨Ne.symm same, is ▸ at'⟩

theorem mem_modify_cases {l : List α} {d : Nat} {g : α → α} {x : α} (mem : x ∈ l.modify d g) :
    (∃ y, l[d]? = some y ∧ x = g y) ∨ x ∈ l := by
  obtain ⟨j, found⟩ := mem_iff_getElem?.1 mem
  exact (getElem?_modify_cases found).imp And.right fun old => mem_of_getElem? old.2

/-- Where each entry is listed once, its place is known. -/
theorem index_eq_of_filterMap {l : List α} {f : α → Option β} (once : (l.filterMap f).Nodup)
    {i j : Nat} {x y : α} {b : β} (hi : l[i]? = some x) (hj : l[j]? = some y) (fx : f x = some b)
    (fy : f y = some b) : i = j := by
  rw [List.Nodup, pairwise_filterMap, pairwise_iff_getElem] at once
  obtain ⟨li, rfl⟩ := List.getElem?_eq_some_iff.1 hi
  obtain ⟨lj, rfl⟩ := List.getElem?_eq_some_iff.1 hj
  rcases Nat.lt_trichotomy i j with lt | same | gt
  · exact absurd rfl (once i j li lj lt b fx b fy)
  · exact same
  · exact absurd rfl (once j i lj li gt b fy b fx)

theorem flatMap_modify_perm {f : α → List β} {g : α → α} {b : β} {l : List α} {d : Nat} {x : α}
    (at' : l[d]? = some x) (more : (f (g x)).Perm (b :: f x)) :
    ((l.modify d g).flatMap f).Perm (b :: l.flatMap f) := by
  induction l generalizing d with
  | nil => simp at at'
  | cons y rest ih =>
    cases d with
    | zero =>
      cases (by simpa using at' : y = x)
      simpa using more.append_right (rest.flatMap f)
    | succ d =>
      rw [modify_succ_cons, flatMap_cons, flatMap_cons]
      exact ((ih (by simpa using at')).append_left (f y)).trans perm_middle

theorem flatMap_modify_eq {f : α → List β} {g : α → α} (same : ∀ x, f (g x) = f x) (l : List α)
    (d : Nat) : (l.modify d g).flatMap f = l.flatMap f := by
  induction l generalizing d with
  | nil => simp
  | cons y rest ih => cases d <;> simp [same, ih]

theorem filterMap_modify_eq {f : α → Option β} {g : α → α} (same : ∀ x, f (g x) = f x) (l : List α)
    (d : Nat) : (l.modify d g).filterMap f = l.filterMap f := by
  induction l generalizing d with
  | nil => simp
  | cons y rest ih => cases d <;> simp [filterMap_cons, same, ih]

end

namespace Framed
variable {f : Function} {types : Array ValType} {r : EdgeRef} {extra : List EdgeRef}
  {control : List Frame} {d : Nat} {fr : Frame}

variable (framed : Framed f types (r :: extra) control)
include framed

/-- An edge to no header at all need not be told to anyone. -/
theorem forget (apart : ∀ e, f.edge? r = some e → e.block ∉ control.filterMap Frame.header?) :
    Framed f types extra control :=
  { framed with
    loops := fun fr mem h kind => (framed.loops fr mem h kind).forget fun e found same =>
      apart e found (mem_filterMap.2 ⟨fr, mem, by simp [Frame.header?, kind, same]⟩) }

theorem backed (at' : control[d]? = some fr) {h : LoopHeader} (kind : fr.kind = .loop (some h))
    {args : Array Value}
    (edge : f.edge? r = some ⟨h.block, args⟩) (fits : Fits f types args) (new : r ∉ h.edges) :
    Framed f types extra (control.modify d (Frame.backed r)) := by
  refine .of_frames (fun fr' mem => ?_) ?_ ?_
  · obtain ⟨j, found⟩ := mem_iff_getElem?.1 mem
    rcases getElem?_modify_cases found with ⟨-, y, old, rfl⟩ | ⟨other, old⟩
    · cases at'.symm.trans old
      have sound := framed.loops fr (mem_of_getElem? at') h kind
      simp only [Frame.backed, kind]
      refine ⟨framed.pending fr (mem_of_getElem? at'), (fun _ _ is => by cases is), fun h' is => ?_⟩
      cases is
      have known : ∀ r', r' ∈ h.edges ++ [r] ↔
          r' ∈ ({ h with backEdges := h.backEdges.push r } : LoopHeader).edges := fun r' => by
        simp [LoopHeader.edges]
      refine { sound with passes := fun r' mem => ?_, only :=
        fun r' e found same => ?_, once := ?_ }
      · rcases mem_append.1 ((known r').2 mem) with old | here
        · exact sound.passes r' old
        · cases mem_singleton.1 here
          exact ⟨args, edge, fits⟩
      · rcases sound.only r' e found same with old | listed
        · exact .inl ((known r').1 (mem_append_left _ old))
        · rcases mem_cons.1 listed with rfl | later
          · exact .inl ((known r').1 (by simp))
          · exact .inr later
      · have split : ({ h with backEdges := h.backEdges.push r } : LoopHeader).edges =
            h.edges ++ [r] := by simp [LoopHeader.edges]
        rw [split, nodup_append]
        refine ⟨sound.once, by simp, ?_⟩
        rintro a mem b here rfl
        exact new (mem_singleton.1 here ▸ mem)
    · have frame := framed.frame (mem_of_getElem? old)
      refine { frame with loop := fun h' kind' =>
        (frame.loop h' kind').forget fun e into same => other ?_ }
      cases edge.symm.trans into
      refine index_eq_of_filterMap (b := h.block) framed.headers old at' ?_ ?_
      · simpa [Frame.header?, kind'] using same.symm
      · simp [Frame.header?, kind]
  · rw [flatMap_modify_eq (Frame.backed_waiting r)]
    exact framed.waiting
  · rw [filterMap_modify_eq (Frame.backed_header? r)]
    exact framed.headers

theorem pended (at' : control[d]? = some fr) {locals : Array Value} {result : Option Value}
    (waits : f.edgeAt? r = some none)
    (new : r ∉ control.flatMap Frame.waiting) (fits : Fits f types locals)
    (yields : Yields f fr.result result) :
    Framed f types extra (control.modify d (Frame.pended ⟨r, locals, result⟩)) := by
  have edge : f.edge? r = none := by simp [edge?_eq_join, waits]
  have base := framed.forget (fun e found => by simp [edge] at found)
  refine .of_frames (fun fr' mem => ?_) ?_ ?_
  · rcases mem_modify_cases mem with ⟨y, old, rfl⟩ | old
    · cases at'.symm.trans old
      have frame := base.frame (mem_of_getElem? at')
      refine { frame with pending := fun p inside => ?_ }
      rcases Array.mem_push.1 inside with before | rfl
      · exact frame.pending p before
      · exact ⟨waits, fits, yields⟩
    · exact base.frame old
  · exact (flatMap_modify_perm at' (Frame.pended_waiting _ fr)).nodup_iff.2
      (nodup_cons.2 ⟨new, framed.waiting⟩)
  · rw [filterMap_modify_eq (Frame.pended_header? _)]
    exact framed.headers

end Framed

/-! ### What becomes of a state -/

/-- What becomes of an open frame while code inside it is compiled. -/
structure Frame.Extends (g f : Function) (fr fr' : Frame) : Prop where
  result : fr'.result = fr.result
  base : fr'.base = fr.base
  pending : ∀ p ∈ fr.pending, p ∈ fr'.pending
  kind : match fr.kind with
    | .loop (some h) => ∃ h', fr'.kind = .loop (some h') ∧ h'.block = h.block ∧
        (f.block h.block).params = (g.block h.block).params
    | k => fr'.kind = k

/-- The same frames are open, and what was compiled still means the same. -/
structure Builder.Evolves (s s' : Builder) : Prop where
  grows : s.func.Grows s'.func
  types : s'.localTypes = s.localTypes
  depth : s'.control.length = s.control.length
  frames : ∀ (d : Nat) (fr : Frame), s.control[d]? = some fr →
    ∃ fr', s'.control[d]? = some fr' ∧ fr.Extends s.func s'.func fr'

section
variable {f g h : Function} {fr fr' fr'' : Frame}

theorem Frame.Extends.refl (fr : Frame)
    (params : ∀ h, fr.kind = .loop (some h) → (f.block h.block).params = (g.block h.block).params) :
    fr.Extends g f fr where
  result := rfl
  base := rfl
  pending _ mem := mem
  kind := by
    split
    · next h kind => exact ⟨h, kind, rfl, params h kind⟩
    · next other => rfl

theorem Frame.Extends.trans (first : fr.Extends g h fr') (second : fr'.Extends h f fr'') :
    fr.Extends g f fr'' where
  result := second.result.trans first.result
  base := second.base.trans first.base
  pending p mem := second.pending p (first.pending p mem)
  kind := by
    have one := first.kind
    have two := second.kind
    split at one
    · next head kind =>
      obtain ⟨h', kind', block', params'⟩ := one
      rw [kind'] at two
      obtain ⟨h'', kind'', block'', params''⟩ := two
      rw [block'] at params''
      exact ⟨h'', kind'', block''.trans block', params''.trans params'⟩
    · next k other =>
      rw [one] at two
      split at two
      · next head kind => exact absurd kind (other head)
      · exact two

end

namespace Builder
variable {s t u : Builder}

theorem Evolves.trans (sound : t.func.Sound) (down : u.func.Sound) (first : s.Evolves t)
    (second : t.Evolves u) : s.Evolves u where
  grows := first.grows.trans sound down second.grows
  types := second.types.trans first.types
  depth := second.depth.trans first.depth
  frames d fr at' := by
    obtain ⟨fr', at'', ext⟩ := first.frames d fr at'
    obtain ⟨fr'', at''', ext'⟩ := second.frames d fr' at''
    exact ⟨fr'', at''', ext.trans ext'⟩

/-- Neither the function nor the frames change. -/
theorem Evolves.same (func : t.func = s.func) (types : t.localTypes = s.localTypes)
    (control : t.control = s.control) :
    s.Evolves t where
  grows := func ▸ .refl _
  types := types
  depth := by rw [control]
  frames d fr at' := ⟨fr, control ▸ at', .refl fr fun _ _ => by rw [func]⟩

/-- Additions to the function keep the frames as they are. -/
theorem Evolves.of_adds (sound : s.Sound) (adds : s.func.Adds t.func)
    (types : t.localTypes = s.localTypes) (control : t.control = s.control) : s.Evolves t where
  grows := adds.grows
  types := types
  depth := by rw [control]
  frames d fr at' := by
    refine ⟨fr, by rw [control]; exact at', .refl fr fun h kind => ?_⟩
    obtain ⟨args, into, _⟩ := (sound.control.loops fr (mem_of_getElem? at') h kind).entered
    exact adds.params _ _ into

/-- A function that has more in it, and the same edges. -/
theorem Sound.adds {g : Function} (sound : s.Sound) (func : g.Sound) (adds : s.func.Adds g)
    (edges : ∀ r, g.edgeAt? r = s.func.edgeAt? r)
    (unleft : ∀ b, s.current = some b → (g.block b).leave = none) :
    ({ s with func := g } : Builder).Sound where
  func := func
  current b is := ⟨Nat.lt_of_lt_of_le (sound.current b is).1 adds.blocks, unleft b is⟩
  locals := sound.locals.mono adds.values adds.types
  stack v mem := Nat.lt_of_lt_of_le (sound.stack v mem) adds.values
  control := sound.control.of_edges adds edges

/-! ### Instructions -/

section
variable {b : Nat} {inst : Inst}

theorem appended_adds (unleft : (s.func.block b).leave = none) (result : Option Value) :
    s.func.Adds (s.appended b inst result).func :=
  modifyBlock_adds unleft rfl (by simp)

theorem appended_edgeAt? (result : Option Value) (r : EdgeRef) :
    (s.appended b inst result).func.edgeAt? r = s.func.edgeAt? r := by
  simp only [appended, Function.edgeAt?, block_modifyBlock]
  split <;> rfl

theorem appended_unleft {c : Nat} (result : Option Value) :
    ((s.appended b inst result).func.block c).leave = (s.func.block c).leave := by
  simp only [appended, block_modifyBlock]
  split <;> rfl

/-- An instruction more in the current block. -/
theorem Sound.appended (sound : s.Sound) (live : s.current = some b) (result : Option Value) :
    (s.appended b inst result).Sound := by
  have unleft := (sound.current b live).2
  refine sound.adds (sound.func.modifyBlock rfl fun l e leaves => by simp [unleft] at leaves)
    (appended_adds unleft result)
    (appended_edgeAt? result) fun c is => ?_
  exact (appended_unleft result).trans (sound.current c is).2

theorem Sound.newValue (sound : s.Sound) (ty : ValType) :
    ({ s with func := (s.func.newValue ty).2 } : Builder).Sound :=
  sound.adds (sound.func.newValue ty) (newValue_adds s.func ty) (fun _ => rfl) fun b is =>
    (sound.current b is).2

theorem emitted_adds (unleft : (s.func.block b).leave = none) (ty : Option ValType) :
    s.func.Adds (s.emitted b inst ty).func := by
  cases ty with
  | none => exact appended_adds unleft none
  | some ty =>
    have grown :
        (({ s with func := (s.func.newValue ty).2 } : Builder).func.block b).leave = none := unleft
    exact (newValue_adds s.func ty).trans (appended_adds grown _)

theorem Sound.emitted (sound : s.Sound) (live : s.current = some b) (ty : Option ValType) :
    (s.emitted b inst ty).Sound := by
  cases ty with
  | none => exact sound.appended live none
  | some ty =>
    have grown : (Builder.appended _ b inst _).Sound :=
      (sound.newValue ty).appended live (some s.func.values.size)
    refine { grown with stack := fun v mem => ?_ }
    rcases mem_cons.1 mem with rfl | old
    · simp [Builder.emitted, Builder.appended]
    · exact grown.stack v old

theorem emitted_evolves (sound : s.Sound) (live : s.current = some b) (ty : Option ValType) :
    s.Evolves (s.emitted b inst ty) := by
  refine .of_adds sound (emitted_adds (sound.current b live).2 ty) ?_ ?_
  · cases ty <;> rfl
  · cases ty <;> rfl

end
end Builder
end Wasmill.Ssa

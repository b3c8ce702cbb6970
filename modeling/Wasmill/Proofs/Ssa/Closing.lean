import Wasmill.Proofs.Ssa.Framing

/-! The second arm of an `if`, and the ends of frames. -/
namespace Wasmill.Ssa
open Build Steps List Ssa.Function
variable {stack : List Value}

/-! ### On the way out of a frame -/

/-- `r` is the topmost operand, if there is to be a value of type `ty`, and `rest` lies below it. -/
structure Taken (s : Builder) (ty : Option ValType) (r : Option Value)
    (rest : List Value) : Prop where
  there : r.isSome = ty.isSome
  stack : s.stack = r.toList ++ rest

section
variable {s t : Builder} {b : Nat} {ty : Option ValType} {r : Option Value} {rest : List Value}

theorem popResult_taken (h : popResult ty s = .ok (r, t)) :
    ∃ rest, Taken s ty r rest ∧ t = { s with stack := rest } := by
  rcases popResult_ok h with ⟨rfl, rfl, rfl⟩ | ⟨ty', w, rest, rfl, rfl, stack, rfl⟩
  · exact ⟨t.stack, ⟨rfl, rfl⟩, rfl⟩
  · exact ⟨rest, ⟨rfl, stack⟩, rfl⟩

theorem Taken.peeked (taken : Taken s ty r rest) : Peeked s ty r := by
  obtain ⟨there, stack⟩ := taken
  cases ty with
  | none => exact .inl ⟨rfl, by simpa using there⟩
  | some ty =>
    obtain ⟨w, rfl⟩ := Option.isSome_iff_exists.1 there
    exact .inr ⟨ty, w, rest, rfl, rfl, stack⟩

/-- Live code leaves with an edge that waits, dead code stays where it is. -/
theorem leaveFrame_ok {p : Option Pending} (h : leaveFrame ty s = .ok (p, t)) :
    (s.current = none ∧ p = none ∧ t = s) ∨
      ∃ b r rest, s.current = some b ∧ Taken s ty r rest ∧ p = some ⟨⟨b, 0⟩, s.locals, r⟩ ∧
        t = ({ s with stack := rest } : Builder).left b (.jump none) := by
  rw [leaveFrame, bind_apply _ isDead_apply] at h
  cases live : s.current with
  | none =>
    simp only [live, Option.isNone_none, if_true, pure_apply] at h
    cases h
    exact .inl ⟨rfl, rfl, rfl⟩
  | some b =>
    simp only [live, Option.isNone_some, Bool.false_eq_true, if_false] at h
    obtain ⟨r, t', popped, h⟩ := bind_ok h
    obtain ⟨rest, taken, rfl⟩ := popResult_taken popped
    have h :=
      (bind_apply _ (leave_apply (s := { s with stack := rest }) live (.jump none))).symm.trans h
    rw [bind_apply _ get_apply] at h
    cases h
    exact .inr ⟨b, r, rest, rfl, taken, rfl, rfl⟩

namespace Builder

theorem Sound.fewer (sound : s.Sound) (sub : ∀ v ∈ stack, v ∈ s.stack) :
    ({ s with stack } : Builder).Sound :=
  { sound with stack := fun v mem => sound.stack v (sub v mem) }

variable {fr : Frame} {outer : List Frame}

/-- The frame is told about the edge that waits for its end. -/
theorem Sound.leave_pended (sound : s.Sound) (live : s.current = some b)
    (control : s.control = fr :: outer) (yields : Yields s.func fr.result r) :
    ({ s.left b (.jump none) with control := fr.pended ⟨⟨b, 0⟩, s.locals,
      r⟩ :: outer } : Builder).Sound := by
  have inside := (sound.current b live).1
  have adds : s.func.Adds (s.left b (.jump none)).func := left_adds (sound.current b live).2
  have told : Framed (s.left b (.jump none)).func s.localTypes [⟨b, 0⟩] s.control :=
    sound.framed_left live
  have waits : (s.left b (.jump none)).func.edgeAt? ⟨b, 0⟩ = some none := by
    rw [left_edgeAt? inside, if_pos rfl]; rfl
  have pended := told.pended (d := 0) (by rw [control]; rfl) waits
    (fun mem => (sound.known_ne live).1 _ mem rfl) (sound.locals_left live)
    (yields.mono adds.values adds.types)
  rw [control] at pended
  exact
    { func := left_sound sound.func fun e mem => by simp [Exit.edges] at mem
      current := nofun
      locals := sound.locals_left live
      stack := fun v mem => Nat.lt_of_lt_of_le (sound.stack v mem) adds.values
      control := pended }

end Builder
end

/-- The code before the end of a frame, or before an `else`, is left: `u` is dead, and the edge `p`
that waits is known to the frame. -/
structure Passed (s u : Builder) (fr : Frame) (outer : List Frame) (p : Option Pending) : Prop where
  sound : u.Sound
  evolves : s.Evolves u
  dead : u.current = none
  control : u.control = { fr with pending := fr.pending ++ p.toArray } :: outer
  below : u.stack.drop (u.stack.length - fr.base) = s.stack.drop (s.stack.length - fr.base)
  left : match s.current with
    | some b => u.func = (s.left b (.jump none)).func ∧
        ∃ r rest, Taken s fr.result r rest ∧ p = some ⟨⟨b, 0⟩, s.locals, r⟩
    | none => u.func = s.func ∧ p = none

/-- Operands below a frame are not taken from inside it. -/
def Grounded (s : Builder) (fr : Frame) : Prop :=
  ∀ b r rest, s.current = some b → Taken s fr.result r rest → fr.base ≤ rest.length

section
variable {s t : Builder} {fr : Frame} {outer : List Frame} {p : Option Pending}

theorem drop_below {taken rest : List Value} {base : Nat} (le : base ≤ rest.length) :
    (taken ++ rest).drop ((taken ++ rest).length - base) = rest.drop (rest.length - base) := by
  rw [length_append, Nat.add_sub_assoc le, ← drop_drop, drop_left]

/-- Leaving a frame, once the edge is told to it. What frames there are meanwhile does not matter.
-/
theorem leaveFrame_passed {c : List Frame} (sound : s.Sound) (control : s.control = fr :: outer)
    (forward : fr.Forward)
    (topped : Topped s 0) (grounded : Grounded s fr)
    (h : leaveFrame fr.result { s with control := c } = .ok (p, t)) :
    Passed s { t with control := { fr with pending := fr.pending ++ p.toArray } :: outer }
      fr outer p ∧
      t.control = c := by
  have top : s.control[0]? = some fr := by rw [control]; rfl
  rcases leaveFrame_ok h with ⟨dead, rfl, rfl⟩ | ⟨b, r, rest, live, taken, rfl, rfl⟩
  · have same :
        ({ s with control := { fr with pending := fr.pending ++ (none : Option Pending).toArray }
        :: outer } : Builder) = s := by simp [← control]
    refine ⟨?_, rfl⟩
    show Passed s { s with control := _ :: outer } fr outer none
    rw [same]
    exact
      { sound := sound
        evolves := .same rfl rfl rfl
        dead := dead
        control := by simp [control]
        below := rfl
        left := by rw [show s.current = none from dead]; exact ⟨rfl, rfl⟩ }
  · replace taken : Taken s fr.result r rest := ⟨taken.there, taken.stack⟩
    replace live : s.current = some b := live
    have yields := topped b fr r live top forward taken.peeked
    have left := sound.leave_pended live control yields
    have evolves :=
      (Builder.left_evolves sound live (.jump none)).modify 0 (pended_extends _ ⟨⟨b, 0⟩, s.locals, r⟩)
    rw [show (s.left b (.jump none)).control = fr :: outer from control] at evolves
    refine ⟨?_, rfl⟩
    have pended :
        ({ fr with pending := fr.pending ++ (some ⟨⟨b, 0⟩, s.locals, r⟩ : Option Pending).toArray }
        : Frame) = fr.pended ⟨⟨b, 0⟩, s.locals, r⟩ := by
      simp [Frame.pended]
    rw [pended]
    exact
      { sound := left.fewer fun v mem => by
          show v ∈ s.stack
          rw [taken.stack]
          exact mem_append_right _ mem
        evolves := { evolves with }
        dead := rfl
        control := by rw [pended]
        below := by
          rw [taken.stack]
          exact (drop_below (grounded b r rest live taken)).symm
        left := by rw [live]; exact ⟨rfl, r, rest, taken, rfl⟩ }

end

/-! ### The second arm -/

section
variable {s : Builder} {f : Function} {types : Array ValType} {fr : Frame} {outer : List Frame}
  {e : EdgeRef} {ls : Array Value}

/-- A frame whose second arm is open waits for one edge less. -/
theorem Framed.second (framed : Framed f types [] (fr :: outer))
    (kind : fr.kind = .ifBlock (some e) ls) :
    Framed f types [] ({ fr with kind := .ifBlock none ls } :: outer) ∧
      e ∉ ({ fr with kind := .ifBlock none ls } :: outer).flatMap Frame.waiting := by
  have once := framed.waiting
  have split : (fr :: outer).flatMap Frame.waiting =
      e :: ({ fr with kind := .ifBlock none ls } :: outer).flatMap Frame.waiting := by
    simp [Frame.waiting, Frame.around, kind]
  rw [split, nodup_cons] at once
  refine ⟨.of_frames (fun g mem => ?_) once.2 ?_, once.1⟩
  · rcases mem_cons.1 mem with rfl | old
    · exact ⟨framed.pending fr mem_cons_self, (fun _ _ is => by cases is), fun _ is => by cases is⟩
    · exact framed.frame (mem_cons_of_mem _ old)
  · have headers := framed.headers
    have same : (fr :: outer).filterMap Frame.header? =
        ({ fr with kind := .ifBlock none ls } :: outer).filterMap Frame.header? := by
      simp [filterMap_cons, Frame.header?, kind]
    rwa [same] at headers

/-- An edge that waits, but for no frame any more, is led to a block that is no header. -/
theorem Builder.Sound.fill {c : Nat} (sound : s.Sound) (waits : s.func.edgeAt? e = some none)
    (apart : e ∉ s.control.flatMap Frame.waiting) (lt : c < s.func.blocks.size)
    (other : c ∉ s.control.filterMap Frame.header?) :
    ({ s with func := s.func.setEdge e ⟨c, #[]⟩ } : Builder).Sound := by
  have adds := setEdge_adds waits ⟨c, #[]⟩
  have framed : Framed (s.func.setEdge e ⟨c, #[]⟩) s.localTypes ([] ++ []) s.control :=
    sound.control.adds adds (fun r mem => by
      rw [Function.setEdge, edgeAt?_modifyEdge, if_neg (by rintro rfl; exact apart mem)]
      exact sound.control.waits mem)
    (fun r d found => by
      rw [edge?_setEdge waits] at found
      split at found
      · cases found; exact .inr (.inr other)
      · exact .inl found)
  exact
    { func := sound.func.setEdge waits lt
      current := fun b is => by
        refine ⟨?_, modifyEdge_unleft (sound.current b is).2⟩
        exact Nat.lt_of_lt_of_le (sound.current b is).1 adds.blocks
      locals := sound.locals.mono adds.values adds.types
      stack := sound.stack
      control := framed }

/-- At the start of the second arm of an `if`, from the dead state `u` behind the first one. -/
structure ElseEntered (u s' : Builder) (fr : Frame) (e : EdgeRef) (ls : Array Value)
    (outer : List Frame) : Prop where
  sound : s'.Sound
  adds : u.func.Adds s'.func
  control : s'.control = { fr with kind := .ifBlock none ls } :: outer
  types : s'.localTypes = u.localTypes
  current : s'.current = some u.func.blocks.size
  stack : s'.stack = u.stack.drop (u.stack.length - fr.base)
  locals : s'.locals = ls
  edge : s'.func.edge? e = some ⟨u.func.blocks.size, #[]⟩
  empty : s'.func.block u.func.blocks.size = {}

theorem elseEntered {u : Builder} (sound : u.Sound) (control : u.control = fr :: outer)
    (kind : fr.kind = .ifBlock (some e) ls) :
    ElseEntered u { u with
        func := u.func.newBlock.2.setEdge e ⟨u.func.blocks.size, #[]⟩
        current := some u.func.blocks.size
        locals := ls
        stack := u.stack.drop (u.stack.length - fr.base)
        control := { fr with kind := .ifBlock none ls } :: outer }
      fr e ls outer := by
  have framed := sound.control
  rw [control] at framed
  obtain ⟨waits, fits⟩ := framed.arms fr mem_cons_self e ls kind
  obtain ⟨second, apart⟩ := framed.second kind
  have new := sound.spare_new
  have waits' : u.spare.func.edgeAt? e = some none := by
    simpa [Builder.spare, Function.edgeAt?] using waits
  have armed :
      ({ u with control := { fr with kind := .ifBlock none ls } :: outer } : Builder).Sound :=
    { sound with control := second }
  have unknown : u.func.blocks.size ∉
      ({ fr with kind := .ifBlock none ls } :: outer).filterMap Frame.header? := fun mem =>
    Nat.lt_irrefl _ (armed.header_lt mem)
  have filled := armed.spare.fill waits' apart new.lt unknown
  have armBlock :
      (u.func.newBlock.2.setEdge e ⟨u.func.blocks.size, #[]⟩).block u.func.blocks.size = {} := by
    have other : e.block ≠ u.func.blocks.size := Nat.ne_of_lt (lt_of_edgeAt? waits)
    rw [Function.setEdge, Function.modifyEdge, block_modifyBlock, if_neg fun here => other here.1]
    exact new.empty
  have entered := filled.enter (c := u.func.blocks.size)
    (by simp [Builder.spare, Function.setEdge, Function.modifyEdge])
    (congrArg Block.leave armBlock)
  exact
    { sound := { entered.fewer fun v mem => mem_of_mem_drop mem with
        locals := fits.mono (Nat.le_refl _) fun _ _ => rfl }
      adds := (newBlock_adds u.func).trans (setEdge_adds waits' _)
      control := rfl
      types := rfl
      current := rfl
      stack := rfl
      locals := rfl
      edge := by
        show (u.spare.func.setEdge e _).edge? e = _
        rw [edge?_setEdge waits', if_pos rfl]
      empty := armBlock }

/-- The second arm of an `if` that live code opened. -/
theorem elseArm_ok {s' : Builder} (sound : s.Sound) (control : s.control = fr :: outer)
    (kind : fr.kind = .ifBlock (some e) ls) (topped : Topped s 0) (grounded : Grounded s fr)
    (h : elseArm s = .ok ((), s')) :
    ∃ u p, Passed s u fr outer p ∧ ElseEntered u s'
      { fr with pending := fr.pending ++ p.toArray } e ls outer := by
  rw [elseArm, bind_apply _ get_apply] at h
  simp only [control] at h
  obtain ⟨p, t, left, h⟩ := bind_ok h
  obtain ⟨passed, same⟩ :=
    leaveFrame_passed sound control (fun h is => by rw [kind] at is; cases is) topped grounded left
  refine ⟨_, p, passed, ?_⟩
  have entered := elseEntered passed.sound passed.control kind
  cases p with
  | none | some p =>
    simp only [kind] at h
    cases h
    simp only [same, control]
    exact entered

end
/-! ### Ends -/

/-- The end of a frame that no edge leads to: what follows is the code inside it. -/
def Straight (s s' : Builder) (fr : Frame) (outer : List Frame) : Prop :=
  (s.current = none ∧
    s' = { s with control := outer, stack := s.stack.drop (s.stack.length - fr.base) }) ∨
  ∃ b r rest, s.current = some b ∧ Taken s fr.result r rest ∧
    s' = { s with
      control := outer, stack := r.toList ++ s.stack.drop (s.stack.length - fr.base) }

/-- The edge around the only arm of an `if`, with what is on it. -/
def Frame.passing (fr : Frame) : Array Pending :=
  match fr.kind with
  | .ifBlock (some e) ls => #[⟨e, ls, none⟩]
  | _ => #[]

/-- The edges to the end of a frame, once the code inside it is left. -/
def Frame.ending (fr : Frame) : List Pending := (fr.pending ++ fr.passing).toList

section
variable {s s' t : Builder} {fr : Frame} {outer : List Frame} {p : Option Pending} {h : LoopHeader}
  {g : Function}

/-- The end of a frame without a header of its own, where nothing waits. -/
theorem straight_ok (h : (do
      let value ← if ← isDead then pure none else popResult fr.result
      truncate fr.base
      pushAll value : Build Unit) { s with control := outer } = .ok ((), s'))
    (grounded : Grounded s fr) : Straight s s' fr outer := by
  rw [bind_apply _ isDead_apply] at h
  cases live : s.current with
  | none =>
    simp only [live, Option.isNone_none, if_true] at h
    cases h
    exact .inl ⟨live, by rw [live]⟩
  | some b =>
    simp only [live, Option.isNone_some, Bool.false_eq_true, if_false] at h
    obtain ⟨r, t, popped, h⟩ := bind_ok h
    obtain ⟨rest, taken, rfl⟩ := popResult_taken popped
    have taken : Taken s fr.result r rest := ⟨taken.there, taken.stack⟩
    refine .inr ⟨b, r, rest, live, taken, ?_⟩
    rw [taken.stack, drop_below (grounded b r rest live taken)]
    cases r with
    | none => cases h; rw [live]; rfl
    | some w => cases h; rw [live]; rfl

theorem Frame.ending_source (fr : Frame) : (fr.ending.map Pending.source).Perm fr.waiting := by
  have arms : fr.passing.toList.map Pending.source = fr.around := by
    unfold Frame.passing Frame.around
    split <;> simp_all
  rw [Frame.ending, Array.toList_append, map_append, arms]
  exact perm_append_comm

/-- What waits for the end of the innermost frame can meet there. -/
theorem Builder.Sound.gathered (sound : s.Sound) (control : s.control = fr :: outer)
    (bare : ∀ e ls, fr.kind = .ifBlock (some e) ls → fr.result = none) {pending : List Pending}
    (perm : pending.Perm fr.ending)
    (nonempty : pending ≠ []) (sub : ∀ v ∈ stack, v ∈ s.stack) :
    Gathered { s with control := outer, stack } fr.result pending := by
  have framed := sound.control
  rw [control] at framed
  have sources : (pending.map (·.source)).Perm fr.waiting :=
    (perm.map _).trans fr.ending_source
  have once := framed.waiting
  rw [flatMap_cons, nodup_append] at once
  obtain ⟨own, -, apart⟩ := once
  exact
    { sound := (sound.close control).fewer sub
      nonempty := nonempty
      each := fun q mem => by
        rcases Array.mem_append.1 (Array.mem_def.2 (perm.mem_iff.1 mem)) with waits | around
        · exact framed.pending fr mem_cons_self q waits
        · unfold Frame.passing at around
          split at around
          · next e ls kind =>
            obtain rfl := Array.mem_singleton.1 around
            obtain ⟨waits, fits⟩ := framed.arms fr mem_cons_self e ls kind
            exact ⟨waits, fits, by rw [bare e ls kind]; rfl⟩
          · simp at around
      once := sources.nodup_iff.2 own
      apart := fun q mem other => by
        have mine : q.source ∈ fr.waiting := sources.mem_iff.1 (List.mem_map.2 ⟨q, mem, rfl⟩)
        exact apart _ mine _ other rfl }

/-- How a `block` or an `if` ends: straight on, or with edges that meet behind it. -/
def BlockEnds (s s' : Builder) (fr : Frame) (outer : List Frame) : Prop :=
  (fr.ending = [] ∧ Straight s s' fr outer) ∨
    ∃ u p v pending, Passed s u fr outer p ∧
      pending.Perm ({ fr with pending := fr.pending ++ p.toArray } : Frame).ending ∧
      Met { u with control := outer, stack := u.stack.drop (u.stack.length - fr.base) } s' fr.result
        pending v

theorem endBlock_ok (sound : s.Sound) (control : s.control = fr :: outer) (forward : fr.Forward)
    (topped : Topped s 0) (grounded : Grounded s fr)
    (bare : ∀ e ls, fr.kind = .ifBlock (some e) ls → fr.result = none)
    (h : endBlock fr { s with control := outer } = .ok ((), s')) : BlockEnds s s' fr outer := by
  have h : (if (fr.pending ++ fr.passing).isEmpty then (do
        let value ← if ← isDead then pure none else popResult fr.result
        truncate fr.base
        pushAll value)
      else (do
        let last ← leaveFrame fr.result
        truncate fr.base
        meet fr ((fr.pending ++ fr.passing).toList ++ last.toList)) : Build Unit)
      { s with control := outer } = .ok ((), s') := h
  split at h
  · next none =>
    exact .inl ⟨by simpa [Frame.ending] using none, straight_ok h grounded⟩
  · next some =>
    obtain ⟨p, t, left, last⟩ := bind_ok h
    obtain ⟨passed, rfl⟩ := leaveFrame_passed sound control forward topped grounded left
    have perm : ((fr.pending ++ fr.passing).toList ++ p.toList).Perm
        ({ fr with pending := fr.pending ++ p.toArray } : Frame).ending := by
      show List.Perm _ (fr.pending ++ p.toArray ++ fr.passing).toList
      simp only [Array.toList_append, Option.toList_toArray, append_assoc]
      exact perm_append_comm.append_left _
    have nonempty : (fr.pending ++ fr.passing).toList ++ p.toList ≠ [] := by
      intro empty
      exact some (by simpa using (append_eq_nil_iff.1 empty).1)
    have gathered :
        Gathered { t with stack := t.stack.drop (t.stack.length - fr.base) } fr.result _ :=
      passed.sound.gathered passed.control bare perm nonempty
        fun v mem => mem_of_mem_drop mem
    obtain ⟨r, met⟩ := meet_ok gathered last
    exact .inr ⟨_, p, r, _, passed, perm, met⟩

/-- Dropping parameters of the innermost loop concerns no other frame. -/
theorem Framed.pruned {f : Function} {types : Array ValType}
    (framed : Framed f types [] (fr :: outer))
    (kind : fr.kind = .loop (some h)) (pruned : f.Pruned h g) :
    Framed g types [] outer ∧ ∀ fr' ∈ outer, ∀ h', fr'.kind = .loop (some h') →
      (g.block h'.block).params = (f.block h'.block).params := by
  have tail := framed.tail
  have header := framed.loops fr mem_cons_self h kind
  have le : f.values.size ≤ g.values.size := Nat.le_of_eq pruned.values.symm
  have filled : ∀ r, f.edgeAt? r = some none → r ∉ h.edges := fun r waits mem => by
    obtain ⟨args, edge, -⟩ := header.passes r mem
    simp [edge?_eq_join, waits] at edge
  have others : ∀ fr' ∈ outer, ∀ h', fr'.kind = .loop (some h') → h'.block ≠ h.block := by
    intro fr' mem h' kind' same
    have once := framed.headers
    rw [filterMap_cons_some (show fr.header? = some h.block by simp [Frame.header?, kind]),
      nodup_cons] at once
    exact once.1 (mem_filterMap.2 ⟨fr', mem, by simp [Frame.header?, kind', same]⟩)
  -- an edge to another block is not one of the loop's, before and after
  have same : ∀ r e, e.block ≠ h.block → (f.edge? r = some e ↔ g.edge? r = some e) := by
    intro r e other
    by_cases mem : r ∈ h.edges
    · obtain ⟨args, edge, -⟩ := header.passes r mem
      obtain ⟨args', edge', -⟩ := pruned.looped.passes r mem
      rw [edge, edge']
      constructor <;> (intro is; cases is; exact absurd rfl other)
    · rw [edge?_eq_join, edge?_eq_join, pruned.edges r mem]
  refine ⟨⟨fun fr' mem p inside => ?_, fun fr' mem e ls is => ?_, fun fr' mem h' is => ?_,
    tail.waiting, tail.headers⟩, fun fr' mem h' is => pruned.elsewhere _ (others fr' mem h' is)⟩
  · obtain ⟨waits, locals, result⟩ := tail.pending fr' mem p inside
    exact ⟨(pruned.edges _ (filled _ waits)).trans waits, locals.mono le pruned.grows.types,
      result.mono le pruned.grows.types⟩
  · obtain ⟨waits, locals⟩ := tail.arms fr' mem e ls is
    exact ⟨(pruned.edges _ (filled _ waits)).trans waits, locals.mono le pruned.grows.types⟩
  · have sound := tail.loops fr' mem h' is
    have other := others fr' mem h' is
    have params := pruned.elsewhere _ other
    obtain ⟨args, into, older⟩ := sound.entered
    exact
      { ne_entry := sound.ne_entry
        lt := by rw [pruned.blocks]; exact sound.lt
        params := by rw [params]; exact sound.params.mono le pruned.grows.types
        passes := fun r known => by
          obtain ⟨args, edge, fits⟩ := sound.passes r known
          exact ⟨args, (same r _ other).1 edge, fits.mono le pruned.grows.types⟩
        only := fun r e found to' => sound.only r e ((same r e (to' ▸ other)).2 found) to'
        once := sound.once
        entered := ⟨args, (same _ _ other).1 into, by rw [params]; exact older⟩ }

theorem Builder.Sound.pruned (sound : s.Sound) (control : s.control = fr :: outer)
    (kind : fr.kind = .loop (some h))
    (pruned : s.func.Pruned h g) : ({ s with func := g, control := outer } : Builder).Sound ∧
      ({ s with control := outer } : Builder).Evolves { s with func := g, control := outer } := by
  have framed := sound.control
  rw [control] at framed
  have le : s.func.values.size ≤ g.values.size := Nat.le_of_eq pruned.values.symm
  obtain ⟨framed', params⟩ := framed.pruned kind pruned
  refine ⟨⟨pruned.sound, fun b is => ?_, sound.locals.mono le pruned.grows.types,
    fun v mem => ?_, framed'⟩,
    ⟨pruned.grows, rfl, rfl, fun d fr' at' => ⟨fr', at', .refl fr' fun h' is => ?_⟩⟩⟩
  · obtain ⟨lt, unleft⟩ := sound.current b is
    exact ⟨by rw [pruned.blocks]; exact lt, pruned.unleft b unleft⟩
  · exact Nat.lt_of_lt_of_le (sound.stack v mem) le
  · exact params fr' (mem_of_getElem? at') h' is

/-- The end of a loop that live code opened. -/
theorem endLoop_ok (sound : s.Sound) (control : s.control = fr :: outer)
    (kind : fr.kind = .loop (some h))
    (grounded : Grounded s fr)
    (run : endLoop fr (some h) { s with control := outer } = .ok ((), s')) :
    ∃ g, s.func.Pruned h g ∧ Straight { s with func := g } s' fr outer := by
  have framed := sound.control
  rw [control] at framed
  obtain ⟨looped, suits⟩ := (framed.loops fr mem_cons_self h kind).looped
  refine ⟨_, pruneLoop_pruned sound.func looped suits, ?_⟩
  rw [endLoop] at run
  dsimp only at run
  rw [bind_apply _ (show modifyFunc _ _ = _ from modify_apply _),
    show h.entry :: h.backEdges.toList = h.edges from rfl] at run
  generalize s.func.pruneLoop h.block h.edges = g at run ⊢
  exact straight_ok (s := { s with func := g }) run fun b r rest live taken =>
    grounded b r rest live ⟨taken.there, taken.stack⟩

end
end Wasmill.Ssa

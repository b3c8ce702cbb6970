import Wasmill.Proofs.Ssa.Joining
import Wasmill.Ssa.Compile

/-! Opening and closing frames while a body is compiled. -/
namespace Wasmill.Ssa
open Build Steps Ssa.Function List
variable {result : Option ValType} {b : Nat}

/-! ### One frame more or less -/

section
variable {f : Function} {types : Array ValType} {control : List Frame} {fr : Frame}

theorem Framed.tail (framed : Framed f types [] (fr :: control)) : Framed f types [] control := by
  refine .of_frames (fun g mem => framed.frame (mem_cons_of_mem fr mem)) ?_ ?_
  · have once := framed.waiting
    rw [flatMap_cons, nodup_append] at once
    exact once.2.1
  · have once := framed.headers
    rw [filterMap_cons] at once
    split at once
    · exact once
    · exact (nodup_cons.1 once).2

/-- What a new frame has to bring. -/
structure Frame.Fresh (f : Function) (types : Array ValType) (control : List Frame) (fr : Frame) :
    Prop where
  pending : fr.pending = #[]
  arm : ∀ e locals, fr.kind = .ifBlock (some e) locals → f.edgeAt? e = some none ∧
    Fits f types locals ∧ e ∉ control.flatMap Frame.waiting
  loop : ∀ h, fr.kind = .loop (some h) → h.Sound f types [] ∧
    h.block ∉ control.filterMap Frame.header?

theorem Framed.cons (framed : Framed f types [] control) (fresh : fr.Fresh f types control) :
    Framed f types [] (fr :: control) := by
  refine .of_frames (fun g mem => ?_) ?_ ?_
  · rcases mem_cons.1 mem with rfl | old
    · exact ⟨by simp [fresh.pending],
        fun e locals kind => ⟨(fresh.arm e locals kind).1, (fresh.arm e locals kind).2.1⟩,
        fun h kind => (fresh.loop h kind).1⟩
    · exact framed.frame old
  · rw [flatMap_cons, nodup_append]
    have shape : fr.waiting = fr.around := by simp [Frame.waiting, fresh.pending]
    refine ⟨?_, framed.waiting, fun r mine r' other same => ?_⟩
    · rw [shape, Frame.around]; split <;> simp
    · rw [shape, Frame.around] at mine
      split at mine
      · next e locals kind =>
        cases mem_singleton.1 mine
        exact (fresh.arm _ locals kind).2.2 (same ▸ other)
      · cases mine
  · rw [filterMap_cons]
    split
    · exact framed.headers
    · next b is =>
      refine nodup_cons.2 ⟨?_, framed.headers⟩
      unfold Frame.header? at is
      split at is
      · next h kind => cases is; exact (fresh.loop h kind).2
      · cases is

end

namespace Builder
variable {s t : Builder} {fr : Frame}

theorem Sound.push (sound : s.Sound) (fresh : fr.Fresh s.func s.localTypes s.control) :
    ({ s with control := fr :: s.control } : Builder).Sound :=
  { sound with control := sound.control.cons fresh }

theorem Sound.close {rest : List Frame} (sound : s.Sound) (control : s.control = fr :: rest) :
    ({ s with control := rest } : Builder).Sound :=
  { sound with control := by have framed := sound.control; rw [control] at framed; exact framed.tail
    }

theorem Evolves.tail (evolves : s.Evolves t) :
    ({ s with control := s.control.tail } : Builder).Evolves
      { t with control := t.control.tail } := by
  refine { evolves with depth := by simp [evolves.depth], frames := fun d fr at' => ?_ }
  simp only [getElem?_tail] at at' ⊢
  exact evolves.frames (d + 1) fr at'

/-- A frame of which nothing is known but where it starts. -/
theorem frame_fresh {kind : FrameKind} (plain : kind = .block ∨ kind = .function)
    (result : Option ValType) (base : Nat) :
    (Frame.mk kind result base #[]).Fresh s.func s.localTypes s.control where
  pending := rfl
  arm e locals is := by rcases plain with rfl | rfl <;> cases is
  loop h is := by rcases plain with rfl | rfl <;> cases is

end Builder

/-! ### Loops -/

/-- At the head of a loop. All locals are parameters of the new block. -/
structure LoopEntered (s s' : Builder) (b : Nat) (result : Option ValType) : Prop where
  sound : s'.Sound
  adds : s.func.Adds s'.func
  control : s'.control =
    ⟨.loop (some ⟨s.func.blocks.size, ⟨b, 0⟩, #[]⟩), result, s.stack.length, #[]⟩ :: s.control
  types : s'.localTypes = s.localTypes
  current : s'.current = some s.func.blocks.size
  stack : s'.stack = s.stack
  locals : s'.locals = (s'.func.block s.func.blocks.size).params
  fresh : ∀ q : Nat, q ∈ s'.locals → s.func.values.size ≤ q
  left : (s'.func.block b).leave = some ⟨.jump (some ⟨s.func.blocks.size, s.locals⟩), s.srcloc⟩
  same : (s'.func.block b).steps = (s.func.block b).steps
  polls : ∀ step ∈ (s'.func.block s.func.blocks.size).steps,
    step.inst = .interruptCheck ∧ step.result = none

theorem LoopEntered.polled {s s' : Builder} (entered : LoopEntered s s' b result)
    (ne : b ≠ s.func.blocks.size) :
    LoopEntered s (s'.appended s.func.blocks.size .interruptCheck none) b result := by
  have unleft := (entered.sound.current _ entered.current).2
  have other :
      (s'.appended s.func.blocks.size .interruptCheck none).func.block b = s'.func.block b := by
    simp [Builder.appended, block_modifyBlock, Ne.symm ne]
  refine { entered with
    sound := entered.sound.appended entered.current none
    adds := entered.adds.trans (Builder.appended_adds unleft none), locals := ?_, left :=
      ?_, same := ?_
    polls := ?_ }
  · rw [show (s'.appended _ _ _).locals = s'.locals from rfl, entered.locals]
    simp only [Builder.appended, block_modifyBlock]
    split <;> rfl
  · rw [other]; exact entered.left
  · rw [other]; exact entered.same
  · intro step mem
    have inside := (entered.sound.current _ entered.current).1
    simp only [Builder.appended, block_modifyBlock, inside, and_self, if_true,
      Array.mem_push] at mem
    rcases mem with old | rfl
    · exact entered.polls step old
    · exact ⟨rfl, rfl⟩

theorem enterLoop_ok {s s' : Builder} {mode : InterruptMode} (sound : s.Sound)
    (live : s.current = some b)
    (h : enterLoop mode result s = .ok ((), s')) :
    LoopEntered s s' b result := by
  obtain ⟨inside, unleft⟩ := sound.current b live
  have other : s.func.blocks.size ≠ b := by omega
  have new : s.func.block s.func.blocks.size = {} := s.func.block_of_le (Nat.le_refl _)
  have spareSound := sound.spare
  obtain ⟨vs, g, widened, wide, typed⟩ := newParams_ok (s := s.spare) (t := s.func.blocks.size)
    spareSound.func (by simp [Builder.spare])
    (fun r e into => by
      rw [Builder.spare, newBlock_edge?] at into
      exact Nat.ne_of_lt (sound.func.target_lt r e into))
    s.localTypes.toList
  have adds : s.func.Adds g := (newBlock_adds s.func).trans wide.adds
  -- before the block is left
  have grown : ({ s.spare with func := g } : Builder).Sound :=
    spareSound.adds wide.sound wide.adds wide.edgeAt? fun c is => by
    cases is.symm.trans live
    rw [wide.others b (Ne.symm other)]
    simpa [Builder.spare] using unleft
  have live' : ({ s with func := g } : Builder).current = some b := live
  have lt : b < g.blocks.size := (grown.current b live').1
  let exit : Exit := .jump (some ⟨s.func.blocks.size, s.locals⟩)
  let left := ({ s with func := g } : Builder).left b exit
  have leftAdds : g.Adds left.func := Builder.left_adds (grown.current b live').2
  have into : left.func.edge? ⟨b, 0⟩ = some ⟨s.func.blocks.size, s.locals⟩ := by
    rw [Builder.left_edge? (s := { s with func := g }) lt]; rfl
  have headBlock : left.func.block s.func.blocks.size = g.block s.func.blocks.size :=
    Builder.left_block other
  have headSize : s.func.blocks.size < left.func.blocks.size := by
    simp [left, Builder.left, wide.size, Builder.spare]
  have params : (g.block s.func.blocks.size).params = vs.toArray := by
    have all := wide.params
    simp only [Builder.spare, newBlock_block, new, nil_append] at all
    exact Array.toList_inj.1 (by simpa using all)
  have fits : Fits left.func s.localTypes vs.toArray :=
    { size := by simpa using congrArg List.length typed
      lt := fun v mem => (wide.fresh v (by simpa using mem)).2
      ty := fun i v at' => by
        rw [← Array.getElem?_toList, ← typed, getElem?_map]
        simp only [getElem?_toArray] at at'
        rw [at']
        rfl }
  have header : (⟨s.func.blocks.size, ⟨b, 0⟩, #[]⟩ : LoopHeader).Sound left.func s.localTypes [] :=
    { ne_entry := Nat.ne_of_gt sound.func.entry
      lt := headSize
      params := by rw [headBlock, params]; exact fits
      passes := fun r mem => by
        simp only [LoopHeader.edges, mem_singleton] at mem
        subst mem
        exact ⟨s.locals, into, grown.locals_left live'⟩
      only := fun r e found same => by
        refine .inl ?_
        have at' := edgeAt?_of_edge? found
        rw [Builder.left_edgeAt? (s := { s with func := g }) lt] at at'
        split at at'
        · next here =>
          obtain ⟨c, k⟩ := r
          subst here
          cases k with
          | zero => simp [LoopHeader.edges]
          | succ k => simp [exit, Exit.edges] at at'
        · have before : s.func.edge? r = some e := by
            rw [wide.edgeAt?] at at'
            rw [edge?_eq_join]
            simpa [Builder.spare, Function.edgeAt?] using congrArg Option.join at'
          exact absurd same (Nat.ne_of_lt (sound.func.target_lt r e before))
      once := by simp [LoopHeader.edges]
      entered := by
        refine ⟨s.locals, into, fun a p passed mem => ?_⟩
        rw [headBlock, params] at mem
        exact Nat.lt_of_lt_of_le (sound.locals.lt a passed) (wide.fresh p (by simpa using mem)).1 }
  have leftSound : left.Sound := grown.leave live' fun e mem => by
    cases Option.some.inj (mem_singleton.1 mem)
    exact ⟨by simpa [left, Builder.left] using headSize,
      fun mem => Nat.lt_irrefl _ (sound.header_lt mem)⟩
  -- at the head, before the frame is opened
  let head : Builder := { left with current := some s.func.blocks.size, locals := vs.toArray }
  have headSound : head.Sound :=
    { leftSound.enter headSize (by rw [headBlock, wide.leave]; simp [Builder.spare,
      new]) with locals := fits }
  have opened : enterLoop mode result s = (do
      interruptCheck mode
      openFrame (.loop (some ⟨s.func.blocks.size, ⟨b, 0⟩, #[]⟩)) result : Build Unit) head := by
    rw [enterLoop, bind_apply _ newBlock_apply, bind_apply _ get_apply]
    refine (bind_apply _ widened).trans ?_
    rw [bind_apply _ get_apply]
    exact (bind_apply _ (leave_apply live' exit)).trans rfl
  rw [opened] at h
  have entered : LoopEntered s { head with control := _ :: s.control } b result :=
    { sound := headSound.push
        { pending := rfl
          arm := fun e ls is => by cases is
          loop := fun h is => by
            cases is
            exact ⟨header, fun mem => Nat.lt_irrefl _ (sound.header_lt mem)⟩ }
      adds := adds.trans leftAdds
      control := rfl
      types := rfl
      current := rfl
      stack := rfl
      locals := by rw [show head.func = left.func from rfl, headBlock, params]
      fresh := fun q mem => (wide.fresh q (by simpa [head] using mem)).1
      left := Builder.left_leave (s := { s with func := g }) lt
      same := by
        simp only [head, left, Builder.left, block_modifyBlock, lt, and_self, if_true]
        rw [wide.others b (Ne.symm other)]
        simp [Builder.spare]
      polls := by
        rw [show head.func = left.func from rfl, headBlock, wide.steps]
        simp [Builder.spare, new] }
  cases mode with
  | signal =>
    rw [bind_apply (a := ()) (t := head) _ rfl] at h
    cases h
    exact entered
  | polling =>
    rw [interruptCheck,
      bind_apply _ (append_apply (b := s.func.blocks.size) rfl .interruptCheck none)] at h
    cases h
    exact entered.polled (Ne.symm other)

/-! ### Conditionals -/

/-- At the start of the first arm of an `if`. The edge around it waits in the frame. -/
structure IfEntered (s s' : Builder) (b : Nat) (result : Option ValType) (cond : Value)
    (rest : List Value) : Prop where
  sound : s'.Sound
  adds : s.func.Adds s'.func
  control : s'.control = ⟨.ifBlock (some ⟨b, 1⟩) s.locals, result, rest.length, #[]⟩ :: s.control
  types : s'.localTypes = s.localTypes
  current : s'.current = some s.func.blocks.size
  popped : s.stack = cond :: rest
  stack : s'.stack = rest
  locals : s'.locals = s.locals
  left : (s'.func.block b).leave =
    some ⟨.branch cond (some ⟨s.func.blocks.size, #[]⟩) none, s.srcloc⟩
  same : (s'.func.block b).steps = (s.func.block b).steps
  empty : s'.func.block s.func.blocks.size = {}

theorem enterIf_ok {s s' : Builder} (sound : s.Sound) (live : s.current = some b)
    (h : enterIf result s = .ok ((), s')) :
    ∃ cond rest, IfEntered s s' b result cond rest := by
  obtain ⟨cond, s₁, popped, h⟩ := bind_ok h
  obtain ⟨rest, stack, rfl⟩ := pop_ok popped
  have popSound := sound.pop stack
  have spareSound := popSound.spare
  have spare := popSound.spare_new
  have inside := (sound.current b live).1
  have other : s.func.blocks.size ≠ b := by omega
  let t : Builder := ({ s with stack := rest } : Builder).spare
  let exit : Exit := .branch cond (some ⟨s.func.blocks.size, #[]⟩) none
  have live' : t.current = some b := live
  have lt : b < t.func.blocks.size := (spareSound.current b live').1
  rw [bind_apply _ newBlock_apply] at h
  have h := (bind_apply _ (leave_apply live' exit)).symm.trans h
  rw [bind_apply _ enter_apply, bind_apply _ get_apply] at h
  cases h
  have armBlock : (t.left b exit).func.block s.func.blocks.size = {} := by
    rw [Builder.left_block other]; exact spare.empty
  have left : (t.left b exit).Sound := spareSound.leave live' fun e mem => by
    simp only [exit, Exit.edges, mem_cons, Option.some.injEq, reduceCtorEq, not_mem_nil,
      or_false] at mem
    subst mem
    exact ⟨spare.lt, spare.ne_header⟩
  have opened : ({ t.left b exit with current := some s.func.blocks.size } : Builder).Sound :=
    left.enter (by simpa [Builder.left] using spare.lt) (by rw [armBlock])
  refine ⟨cond, rest,
    { sound := opened.push
        { pending := rfl
          arm := fun e ls is => ?_
          loop := fun h is => by cases is }
      adds := (newBlock_adds s.func).trans (Builder.left_adds (spareSound.current b live').2)
      control := rfl
      types := rfl
      current := rfl
      popped := stack
      stack := rfl
      locals := rfl
      left := Builder.left_leave lt
      same := ?_
      empty := armBlock }⟩
  · cases is
    refine ⟨?_, opened.locals, fun waits => (sound.known_ne live).1 _ waits rfl⟩
    show (t.left b exit).func.edgeAt? ⟨b, 1⟩ = some none
    rw [Builder.left_edgeAt? lt, if_pos rfl]
    rfl
  · simp [Builder.left, block_modifyBlock, Builder.spare, t]
    split <;> rfl

end Wasmill.Ssa

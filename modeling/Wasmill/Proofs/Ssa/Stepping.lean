import Wasmill.Proofs.Ssa.Simulation

/-! Single operators, side by side with the instructions and exits they became. -/
namespace Wasmill.Ssa
open Ssa.Function Builder List
variable {inst : Inst} {rest : List Value} {place : Nat} {v : Option Value}

section
variable {σ ε : Type} {f : Function} {O : Outside σ ε} {n ticks depth : Nat} {s s' t : Builder}
  {st : State} {h : History σ}
  {c : Wasm.State σ} {b : Nat} {ty : Option ValType}

theorem At.block_eq (at' : At f s c st) (live : s.current = some b) : b = st.block := by
  have := at'.block
  rw [live] at this
  exact Option.some.inj this

/-! ### Instructions -/

/-- The instruction compiled last, in the finished function. -/
theorem emitted_step (inside : b < s.func.blocks.size)
    (grows : (s.emitted b inst ty).func.Grows f) :
    (f.block b).steps[(s.func.block b).steps.size]? = some ⟨inst,
      ty.map fun _ => s.func.values.size, s.srcloc⟩ := by
  have pushed : ((s.emitted b inst ty).func.block b).steps =
      (s.func.block b).steps.push ⟨inst, ty.map fun _ => s.func.values.size, s.srcloc⟩ := by
    cases ty <;>
      simp [Builder.emitted, Builder.appended, block_modifyBlock, inside]
  obtain ⟨more, same⟩ := grows.steps b
  rw [← Array.getElem?_toList, ← same, pushed, getElem?_append_left (by simp)]
  simp

/-- The result of an instruction stands for itself. -/
theorem emitted_own {ty : ValType} (sound : s.Sound) (live : s.current = some b)
    (grows : (s.emitted b inst (some ty)).func.Grows f) :
    f.resolve s.func.values.size = s.func.values.size := by
  refine resolve_of_none (grows.kept _ (by simp [Builder.emitted, Builder.appended]) ?_ ?_).1
  · rw [(emitted_adds (sound.current b live).2 (some ty)).aliases]
    exact Option.eq_none_iff_forall_not_mem.2 fun w same => Nat.lt_irrefl _ (s.func.sameAs_lt same)
  · intro d _ mem
    have same : ((s.emitted b inst (some ty)).func.block d).params = (s.func.block d).params := by
      simp only [Builder.emitted, Builder.appended, block_modifyBlock]
      split <;> simp
    rw [same] at mem
    exact Nat.lt_irrefl _ (sound.func.param_lt d _ mem)

/-! ### Exits -/

/-- The topmost operands lie inside the innermost frame. -/
def Offers (s : Builder) (ty : Option ValType) : Prop :=
  ∀ w rest, ty.isSome → s.stack = w :: rest → s.base ≤ rest.length

theorem Offers.reads (offers : Offers s ty) (peeked : Peeked s ty v)
    (stack : f.readAll st.vals s.inner = some c.stack) (w : Value) (is : v = some w) :
    ∃ x rest, c.stack = x :: rest ∧ f.read st.vals w = some x := by
  rcases peeked with ⟨-, rfl⟩ | ⟨ty', w', rest, rfl, rfl, top⟩
  · cases is
  · cases is
    have inner : s.inner = [w] ++ rest.take (rest.length - s.base) :=
      inner_of_append top (offers w rest rfl top)
    rw [inner] at stack
    obtain ⟨x, xs, reads, -, same⟩ := readAll_cons_eq_some.1 stack
    exact ⟨x, xs, same, reads⟩

/-- What a return gives back. -/
theorem returned_eq {vals : Slots} (there : v.isSome = ty.isSome)
    (reads : ∀ w, v = some w → ∃ x rest, c.stack = x :: rest ∧ f.read vals w = some x) :
    ∃ x, c.returned ty = (.ended (.returned x) c.history : Wasm.Result σ ε) ∧
      (Exit.ret v).depart f vals = some (.ret x) := by
  cases v with
  | none =>
    obtain rfl : ty = none := by simpa using there.symm
    exact ⟨none, rfl, rfl⟩
  | some w =>
    obtain ⟨ty', rfl⟩ := Option.isSome_iff_exists.1 there.symm
    obtain ⟨x, rest, stack, reads⟩ := reads w rfl
    exact ⟨some x, by simp [Wasm.State.returned, stack], by simp [Exit.depart, reads]⟩

theorem Peeked.isSome (peeked : Peeked s ty v) : v.isSome = ty.isSome := by
  rcases peeked with ⟨rfl, rfl⟩ | ⟨ty', w, rest, rfl, rfl, -⟩ <;> rfl

/-! ### Branches -/

theorem Builder.Evolves.base (evolves : s.Evolves s') : s'.base = s.base := by
  unfold Builder.base
  cases here : s.control with
  | nil =>
    have empty : s'.control = [] := eq_nil_of_length_eq_zero (by rw [evolves.depth, here]; rfl)
    rw [empty]
  | cons fr outer =>
    obtain ⟨fr', there, ext⟩ := evolves.frames 0 fr (by rw [here]; rfl)
    rw [head?_eq_getElem?, there]
    exact ext.base

/-- What branching to the frame of that depth relies on. -/
structure Branchable (s : Builder) (depth : Nat) : Prop where
  topped : Topped s depth
  offers : ∀ fr, s.control[depth]? = some fr → fr.Forward → Offers s fr.result
  result : ∀ fr, s.control[depth]? = some fr → fr.kind = .function → fr.result = s.func.sig.result

/-- The state with unused blocks more. -/
theorem At.padded (at' : At f s c st) (padded : s.Padded t) : At f t c st := by
  have same := padded.same
  refine ⟨?_, ?_, ?_, ?_⟩
  · rw [same]; exact at'.block
  · rw [padded.block]; exact at'.index
  · rw [same]; exact at'.locals
  · rw [same]; exact at'.stack

theorem Branchable.padded (able : Branchable s depth) (padded : s.Padded t) :
    Branchable t depth := by
  refine ⟨able.topped.padded padded, fun fr at' forward => ?_, fun fr at' is => ?_⟩
  · rw [padded.same] at at' ⊢
    exact able.offers fr at' forward
  · rw [padded.same] at at'
    exact (able.result fr at' is).trans (by rw [padded.sig])

/-- With the topmost operand taken. -/
theorem At.popped {v : Value} (at' : At f s c st) (stack : s.stack = v :: rest)
    (le : s.base ≤ rest.length) : ∃ x below, c.stack = x :: below ∧ f.read st.vals v = some x ∧
      At f { s with stack := rest } { c with stack := below } st := by
  have reads := at'.stack
  have split : s.stack = [v] ++ rest := stack
  rw [inner_of_append split le] at reads
  obtain ⟨x, below, head, tail, same⟩ := readAll_cons_eq_some.1 reads
  exact ⟨x, below, same, head, at'.block, at'.index, at'.locals, tail⟩

section
variable (sound₀ : s.Sound) (live : s.current = some b) (at' : At f s c st) {exit : Exit}
  {env : Env} {i : Nat}
include sound₀ live at'

section
variable {d : Demand}
  (grows : (({ s with stack := rest } : Builder).emitted b inst ty).func.Grows f)
  (demands : inst.demand f st.vals = some d)
include grows demands

/-- The next move is to meet the new instruction. -/
theorem emitted_next : f.next st = .meet d s.srcloc
    (f.after st ⟨inst, ty.map fun _ => s.func.values.size, s.srcloc⟩) := by
  obtain rfl := at'.block_eq live
  have here := emitted_step (s := { s with stack := rest }) (sound₀.current _ live).1 grows
  simp only [Function.next, at'.index]
  rw [here]
  simp only [demands]

variable {taken : List Value} {below : List Slot} (stack : s.stack = taken ++ rest)
  (le : s.base ≤ rest.length) (sound : f.Sound)
  (reads : f.readAll st.vals (rest.take (rest.length - s.base)) = some below)
include stack le sound reads

/-- What the new instruction comes to is on the stack. -/
theorem emitted_reaches {v : Slot} (answer : O.meet c.history d = .value v h) :
    ∃ st', Reaches f O 0 (.running st c.history) (.running st' h) ∧
      At f (({ s with stack := rest } : Builder).emitted b inst ty)
        { c with stack := if ty.isSome then v :: below else below, history := h } st' ∧
      SameBelow s.func.values.size st.vals st'.vals := by
  have next := emitted_next sound₀ live at' grows demands
  obtain rfl := at'.block_eq live
  have inside := (sound₀.current _ live).1
  have popped : ({ s with stack := rest } : Builder).Sound := sound₀.below stack
  have size :
      st.index + 1 = ((({ s with stack := rest } : Builder).emitted st.block inst ty).func.block
      st.block).steps.size := by
    rw [at'.index]
    cases ty <;> simp [Builder.emitted, Builder.appended, block_modifyBlock, inside]
  have reached : Reaches f O 0 (.running st c.history)
      (.running (f.after st ⟨inst, ty.map fun _ => s.func.values.size, s.srcloc⟩ v) h) :=
    (Reaches.step (by simp [Progress.step, next, answer])).mono (Nat.zero_le 1)
  cases ty with
  | none => exact ⟨_, reached, ⟨at'.block, size, at'.locals, reads⟩, .refl _ _⟩
  | some ty =>
    have own := emitted_own popped live grows
    have kept : SameBelow s.func.values.size st.vals (f.assign st.vals s.func.values.size v) :=
      fun w lt => by
        have other : w ≠ s.func.values.size := Nat.ne_of_lt lt
        rw [Function.assign, own]
        exact if_neg other
    refine ⟨_, reached, ⟨at'.block, size, ?_, ?_⟩, kept⟩
    · rw [← at'.locals]
      exact readAll_of_kept sound kept
        fun w mem => sound₀.locals.lt w (Array.mem_def.2 mem)
    · have inner : (({ s with stack := rest } : Builder).emitted st.block inst (some ty)).inner =
          [s.func.values.size] ++ rest.take (rest.length - s.base) :=
        inner_of_append rfl le
      rw [inner]
      refine readAll_cons_eq_some.2 ⟨v, below, ?_, ?_, rfl⟩
      · simp [Function.read, Function.after, Function.assign]
      · rw [← reads]
        exact readAll_of_kept sound kept
          fun w mem => popped.stack w (mem_of_mem_take mem)

/-- An operator that became an instruction. -/
theorem emitted_agrees {o : Wasm.Operator} (srcloc : s.srcloc = place % UInt32.size)
    (does : o.demand env c.stack = some (d, ty.isSome, below)) :
    Agrees f O s.func.values.size (({ s with stack := rest } : Builder).emitted b inst ty) ticks st
      c.history (c.perform env O o place) := by
  have next := emitted_next sound₀ live at' grows demands
  simp only [Wasm.State.perform, does]
  cases answer : O.meet c.history d with
  | trap t =>
    refine (Reaches.step ?_).mono (Nat.zero_le 1)
    simp [Progress.step, next, answer, Ending.narrowed, srcloc]
  | failure e h' =>
    refine (Reaches.step ?_).mono (Nat.zero_le 1)
    simp [Progress.step, next, answer, Ending.narrowed]
  | value v h' => exact emitted_reaches sound₀ live at' grows demands stack le sound reads answer

end

/-- A block that was left, in the finished function. -/
theorem left_ends (grows : (s.left b exit).func.Grows f) :
    (f.block b).steps[st.index]? = none ∧ ∃ l, (f.block b).leave = some l ∧
      l.exit.depart f st.vals = exit.depart f st.vals ∧ l.srcloc = s.srcloc := by
  obtain rfl := at'.block_eq live
  have inside := (sound₀.current _ live).1
  obtain ⟨steps, l, leaves, grown⟩ := grows.left _ _ (left_leave inside)
  refine ⟨?_, l, leaves, Exit.depart_of_bare grown.bare f st.vals, grown.srcloc⟩
  rw [steps, at'.index]
  simp [Builder.left, block_modifyBlock, inside]

theorem left_leaves (grows : (s.left b exit).func.Grows f)
    (departs : exit.depart f st.vals = some (.edge i)) : f.Leaves st ⟨b, i⟩ := by
  obtain ⟨finished, l, leaves, same, -⟩ := left_ends sound₀ live at' grows
  obtain rfl := at'.block_eq live
  exact ⟨rfl, finished, l, leaves, same.trans departs⟩

omit sound₀ in
/-- An edge of a branch leads where it was decided to lead. The branch may have needed blocks of its
own. -/
theorem Branched.arrives {ts : List Build.Target} {x : Option Nat} {d : Option Edge}
    {target : Build.Target}
    (branched : Branched t s' b exit ts x) (padded : s.Padded t)
    (unused : ∀ e, x = some e → t.Unused e)
    (able : Branchable s depth) (decided : Decided t x depth d target) (told : ts[i]? = some target)
    (edge : exit.edges[i]? = some d) (departs : exit.depart f st.vals = some (.edge i))
    (sound : f.Sound)
    (grows : s'.func.Grows f) :
    ∃ fr, s'.control[depth]? = some fr ∧ Arrives f O n s' st c.history c fr := by
  replace live : t.current = some b := by rw [padded.same]; exact live
  replace at' := at'.padded padded
  replace able := able.padded padded
  have sound₀ := padded.sound
  have leaves :=
    left_leaves sound₀ live at' (branched.adds.grows.trans branched.sound.func sound grows) departs
  obtain ⟨fr, here, way⟩ := decided
  obtain ⟨fr', there, ext⟩ := branched.evolves.frames depth fr here
  have inside := (sound₀.current b live).1
  have filled : ∀ e, d = some e → s'.func.edge? ⟨b, i⟩ = some e := fun e is => by
    refine branched.adds.edges _ _ ?_
    rw [left_edge? inside, edge, is]
    rfl
  refine ⟨fr', there, ?_⟩
  have kind := ext.kind
  unfold Arrives
  cases is : fr.kind with
  | function =>
    have forward : fr.Forward := fun h other => by rw [is] at other; cases other
    simp only [is] at way kind
    simp only [kind]
    obtain ⟨e, rfl, rfl, rfl⟩ := way
    have spare := unused e rfl
    obtain ⟨empty, v, loc, left, peeked⟩ := branched.exits e rfl
    have other : e ≠ b := fun same => spare.ne_current (same ▸ live)
    have params : (s'.func.block e).params = #[] := by
      have known : (t.left b exit).func.edge? ⟨b, i⟩ = some ⟨e, #[]⟩ := by
        rw [left_edge? inside, edge]
        rfl
      rw [branched.adds.params _ _ known, left_block other, spare.empty]
    have crossed := leaves.next_bare sound grows (filled _ rfl) params
    obtain ⟨steps, l, leaves', grown⟩ := grows.left _ _ left
    have sig : s'.func.sig = t.func.sig := branched.evolves.grows.sig
    obtain ⟨y, returned, departs⟩ := returned_eq (ε := ε) (c := c) peeked.isSome
      ((able.offers fr here forward).reads (by rw [able.result fr here is]; exact peeked) at'.stack)
    have finished : (f.block e).steps[0]? = none := by rw [steps, empty]; rfl
    have departs' : l.exit.depart f st.vals = some (.ret y) :=
      (Exit.depart_of_bare grown.bare f st.vals).trans departs
    refine ⟨y, by rw [sig]; exact returned, ?_⟩
    refine ((Reaches.on crossed).trans (.step ?_)).mono (Nat.zero_le _)
    simp [Progress.step, Function.next, finished, leaves', Function.leaving, departs']
  | loop header =>
    cases header with
    | none => simp only [is] at way
    | some head =>
      simp only [is] at way kind
      obtain ⟨head', is', block', params'⟩ := kind
      simp only [is', block']
      obtain ⟨rfl, -⟩ := way
      obtain ⟨args', edge', carries⟩ := grows.edge (filled _ rfl)
      have fits := (sound₀.control.loops fr (mem_of_getElem? here) head is).params
      have size : t.locals.size = (s'.func.block head.block).params.size := by
        rw [params', fits.size, sound₀.locals.size]
      obtain ⟨st', taken, block, index, params, others⟩ :=
        take_carries sound.toRegular carries size at'.locals
      refine ⟨st', .on (leaves.next edge' taken), ⟨block, index, params⟩, fun w _ apart => ?_⟩
      exact others w fun mem => apart (carries.subset w mem)
  | block | ifBlock e ls =>
    have forward : fr.Forward := fun h other => by rw [is] at other; cases other
    simp only [is] at way kind
    simp only [kind]
    obtain ⟨rfl, v, rfl, peeked⟩ := way
    obtain ⟨fr'', at'', mem⟩ := branched.pending i depth v told
    rw [there] at at''
    cases at''
    exact ⟨_, mem, st, .refl _,
      ⟨leaves, at'.locals, (able.offers fr here forward).reads peeked at'.stack⟩, .refl _ _⟩

/-- A trap that is certain. -/
theorem trap_agrees {trap : Trap} (srcloc : s.srcloc = place % UInt32.size)
    (grows : (s.left b (.trap trap)).func.Grows f) :
    Agrees f O n s' ticks st c.history (.ended (.trapped trap place) c.history) := by
  obtain ⟨finished, l, leaves, same, loc⟩ := left_ends sound₀ live at' grows
  obtain rfl := at'.block_eq live
  have departs : l.exit.depart f st.vals = some (.trap trap) := same
  refine (Reaches.step ?_).mono (Nat.zero_le 1)
  simp [Progress.step, Function.next, finished, leaves, Function.leaving, departs, loc, srcloc,
    Ending.narrowed]

/-- A return from the function. -/
theorem ret_reaches (peeked : Peeked s ty v) (offers : Offers s ty)
    (grows : (({ s with stack := rest } : Builder).left b (.ret v)).func.Grows f) :
    ∃ x, c.returned ty = (.ended (.returned x) c.history : Wasm.Result σ ε) ∧
      Reaches f O 0 (.running st c.history) (.ended (.returned x) c.history) := by
  obtain ⟨x, returned, departs⟩ :=
    returned_eq (ε := ε) (c := c) peeked.isSome (offers.reads peeked at'.stack)
  obtain ⟨finished, l, leaves, same, -⟩ := left_ends sound₀ live at' grows
  obtain rfl := at'.block_eq live
  refine ⟨x, returned, (Reaches.step ?_).mono (Nat.zero_le 1)⟩
  simp [Progress.step, Function.next, finished, leaves, Function.leaving, same, departs]

theorem branch_agrees (able : Branchable s depth) (run : Build.branch depth s = .ok ((), s'))
    (sound : f.Sound)
    (grows : s'.func.Grows f) : Agrees f O n s' ticks st c.history (.branch depth c) := by
  obtain ⟨fr, here, ⟨kind, returns⟩ | ⟨d, t, -, decided, branched⟩⟩ :=
    branch_ok sound₀ live able.topped run
  · obtain ⟨v, rest, peeked, -, rfl⟩ := ret_ok live returns
    have same := able.result fr here kind
    obtain ⟨x, returned, reaches⟩ := ret_reaches (O := O) sound₀ live at' peeked
      (by rw [← same]; exact able.offers fr here fun h is => by rw [kind] at is; cases is) grows
    refine ⟨fr, here, ?_⟩
    simp only [Arrives, kind]
    exact ⟨x, returned, reaches⟩
  · exact branched.arrives live at' sound₀.padded nofun able decided rfl rfl rfl sound grows

section
variable {y : Value} (stack : s.stack = y :: rest) (le : s.base ≤ rest.length)
  {result : Option ValType}
include stack le

theorem branchIf_agrees (able : Branchable { s with stack := rest } depth)
  (run : Build.branchIf depth s = .ok ((), s'))
    (sound : f.Sound) (grows : s'.func.Grows f) :
    Agrees f O n s' ticks st c.history (c.operate env O result (.brIf depth) place) := by
  obtain ⟨t₀, next, d, t, x, t₁, padded, spare, unused, decided, branched, rfl⟩ :=
    branchIf_ok sound₀ live stack able.topped run
  obtain ⟨cond, below, top, reads, popped⟩ := at'.popped stack le
  have departs : (Exit.branch y d (some ⟨next, #[]⟩)).depart f st.vals =
      some (.edge (if cond.low32 ≠ 0 then 0 else 1)) := by simp [Exit.depart, reads]
  simp only [Wasm.State.operate, top]
  split
  · next taken =>
    rw [if_pos taken] at departs
    obtain ⟨fr, here, arrives⟩ :=
      branched.arrives (s := { s with stack := rest }) (O := O) (n := n) live popped padded
      (fun e is => (unused e is).1) able decided rfl rfl departs sound grows
    exact ⟨fr, here, Arrives.extends (s := t₁) (.refl fr fun _ _ => rfl) rfl arrives⟩
  · next other =>
    rw [if_neg other] at departs
    have at₀ := popped.padded padded
    have live₀ : t₀.current = some b := by rw [padded.same]; exact live
    have leaves := left_leaves padded.sound live₀ at₀
      (branched.adds.grows.trans branched.sound.func sound grows) departs
    have ne : next ≠ b := fun is => spare.ne_current (is ▸ live₀)
    have apart : x ≠ some next := fun is => (unused next is).2 rfl
    have empty : t₁.func.block next = {} := by rw [branched.others next ne apart, spare.empty]
    have edge : t₁.func.edge? ⟨b, 1⟩ = some ⟨next, #[]⟩ := by
      refine branched.adds.edges _ _ ?_
      rw [left_edge? (padded.sound.current b live₀).1]
      rfl
    have crossed := leaves.next_bare sound grows edge (by rw [empty])
    refine ⟨_, (Reaches.on crossed).mono (Nat.zero_le 1), ⟨rfl, ?_, ?_, ?_⟩, .refl _ _⟩
    · show 0 = (t₁.func.block next).steps.size
      rw [empty]; rfl
    · show f.readAll st.vals t₁.locals.toList = _
      rw [branched.locals]; exact at₀.locals
    · have inner : Builder.inner { t₁ with current := some next } = t₀.inner := by
        show t₁.stack.take (t₁.stack.length - t₁.base) = _
        rw [branched.stack, branched.evolves.base]
        rfl
      rw [inner]
      exact at₀.stack

theorem branchTable_agrees {depths : Array Nat} {default : Nat}
    (able : ∀ depth ∈ depths.toList ++ [default], Branchable { s with stack := rest } depth)
    (run : Build.branchTable depths default s = .ok ((), s')) (sound : f.Sound)
      (grows : s'.func.Grows f) :
    Agrees f O n s' ticks st c.history
      (c.operate env O result (.brTable depths default) place) := by
  obtain ⟨t₀, edges, d, t, x, padded, unused, decided, branched⟩ :=
    branchTable_ok sound₀ live stack (fun depth mem => (able depth mem).topped) run
  obtain ⟨index, below, top, reads, popped⟩ := at'.popped stack le
  have departs : (Exit.table y (edges.map (·.1)).toArray d).depart f st.vals =
      some (.edge (min index.low32.toNat depths.size)) := by
    have count : depths.size = edges.length := by simpa using decided.length_eq
    simp [Exit.depart, reads, count]
  -- the entry that is taken
  generalize at₁ : min index.low32.toNat depths.size = k at departs
  have depth : (depths.toList ++ [default])[k]? = some (depths.getD index.low32.toNat default) := by
    rw [← at₁, getElem?_append, Array.length_toList]
    rcases Nat.lt_or_ge index.low32.toNat depths.size with lt | ge
    · rw [Nat.min_eq_left (Nat.le_of_lt lt), if_pos lt]
      simp [Array.getD_eq_getD_getElem?, lt]
    · rw [Nat.min_eq_right ge, if_neg (Nat.lt_irrefl _)]
      simp [Array.getD_eq_getD_getElem?, ge]
  obtain ⟨e, entry, decided⟩ := forall₂_getElem? decided.flip depth
  have told : (edges.map (·.2) ++ [t])[k]? = some e.2 := by
    have := congrArg (Option.map Prod.snd) entry
    simpa [← getElem?_map] using this
  have edge : (Exit.table y (edges.map (·.1)).toArray d).edges[k]? = some e.1 := by
    have := congrArg (Option.map Prod.fst) entry
    simpa [Exit.edges, ← getElem?_map] using this
  simp only [Wasm.State.operate, top]
  exact branched.arrives (s := { s with stack := rest }) live popped padded unused
    (able _ (mem_of_getElem? depth)) decided
    told edge departs sound grows

end
end
end
end Wasmill.Ssa

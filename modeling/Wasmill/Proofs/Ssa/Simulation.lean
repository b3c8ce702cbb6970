import Wasmill.Proofs.Ssa.Crossing
import Wasmill.Proofs.Wasm.Run

/-! Structured code and the blocks it became, side by side.

`At` relates a state of the operand stack machine to a place in the function, through the state of
compiling that lies between the code before and the code after. `Agrees` says what the function does
where the structured code comes to some result; the lemmas here put it together from parts of the
code. The function is the finished one throughout. -/
namespace Wasmill.Ssa
open Ssa.Function Array
variable {v : Option Value} {ty : Option ValType} {t : Builder}

namespace Builder
variable {top : List Value} {s : Builder}

/-- The height of the operand stack below the innermost frame. -/
def base (s : Builder) : Nat := (s.control.head?.map Frame.base).getD 0

/-- The operands of the innermost frame. -/
def inner (s : Builder) : List Value := s.stack.take (s.stack.length - s.base)

/-- The operands below the innermost frame. -/
def lower (s : Builder) : List Value := s.stack.drop (s.stack.length - s.base)

theorem inner_of_append {below : List Value} (stack : s.stack = top ++ below)
    (le : s.base ≤ below.length) : s.inner = top ++ below.take (below.length - s.base) := by
  rw [inner, stack, List.length_append, Nat.add_sub_assoc le, List.take_length_add_append]

/-- An operand stack on that of `s`, in the same frame. -/
theorem inner_on (stack : t.stack = top ++ s.stack) (base : t.base = s.base)
    (le : s.base ≤ s.stack.length) : t.inner = top ++ s.inner := by
  rw [inner_of_append stack (base ▸ le), base]
  rfl

end Builder

section
variable {σ ε : Type} {pending : List Pending} {around : List Slot} {p : Pending}

/-- Control is where the code compiled last ends, and the values in use are those of `c`. -/
structure At (f : Function) (s : Builder) (c : Wasm.State σ) (st : State) : Prop where
  block : s.current = some st.block
  index : st.index = (s.func.block st.block).steps.size
  locals : f.readAll st.vals s.locals.toList = some c.locals
  stack : f.readAll st.vals s.inner = some c.stack

/-- Older values are as they were. -/
def SameBelow (n : Nat) (vals vals' : Slots) : Prop := ∀ v : Nat, v < n → vals' v = vals v

theorem SameBelow.refl (n : Nat) (vals : Slots) : SameBelow n vals vals := fun _ _ => rfl

theorem SameBelow.trans {n m : Nat} {a b c : Slots} (first : SameBelow n a b)
    (second : SameBelow m b c) (le : n ≤ m) :
    SameBelow n a c := fun v lt => (second v (Nat.lt_of_lt_of_le lt le)).trans (first v lt)

/-- The block is left by an edge that waits for the end of a frame, with the values of `c` on it. -/
structure Waits (f : Function) (p : Pending) (c : Wasm.State σ) (st : State) : Prop where
  leaves : f.Leaves st p.source
  locals : f.readAll st.vals p.locals.toList = some c.locals
  result : ∀ v, p.result = some v → ∃ x rest, c.stack = x :: rest ∧ f.read st.vals v = some x

/-- Control is at the head of a loop that is still open, and its parameters are the locals of `c`.
-/
structure AtHead (f : Function) (s : Builder) (b : Nat) (c : Wasm.State σ) (st : State) : Prop where
  block : st.block = b
  index : st.index = 0
  params : f.readAll st.vals (s.func.block b).params.toList = some c.locals

/-- A branch to the frame `fr`. -/
def Arrives (f : Function) (O : Outside σ ε) (n : Nat) (s : Builder) (st : State) (h : History σ)
    (c : Wasm.State σ) (fr : Frame) : Prop :=
  match fr.kind with
  | .function => ∃ v, c.returned s.func.sig.result =
      (.ended (.returned v) c.history : Wasm.Result σ ε) ∧
      Reaches f O 0 (.running st h) (.ended (.returned v) c.history)
  | .loop (some head) => ∃ st', Reaches f O 1 (.running st h) (.running st' c.history) ∧
      AtHead f s head.block c st' ∧
      ∀ v : Nat, v < n → v ∉ (s.func.block head.block).params → st'.vals v = st.vals v
  | .loop none => False
  | .block | .ifBlock _ _ => ∃ p ∈ fr.pending, ∃ st',
      Reaches f O 0 (.running st h) (.running st' c.history) ∧ Waits f p c st' ∧
      SameBelow n st.vals st'.vals

/-- What the function does from `st` on, where the code up to the state `s` comes to a result.
Values below `n` are kept, and code that runs out of time takes at least as many steps as it has
ticks. -/
def Agrees (f : Function) (O : Outside σ ε) (n : Nat) (s : Builder) (ticks : Nat) (st : State)
    (h : History σ) : Wasm.Result σ ε → Prop
  | .next c => ∃ st', Reaches f O 0 (.running st h) (.running st' c.history) ∧ At f s c st' ∧
      SameBelow n st.vals st'.vals
  | .branch depth c => ∃ fr, s.control[depth]? = some fr ∧ Arrives f O n s st h c fr
  | .ended o h' => Reaches f O 0 (.running st h) (.ended o.narrowed h')
  | .exhausted h' => ∃ st', Reaches f O ticks (.running st h) (.running st' h')
  | .stuck => False

variable {f : Function} {O : Outside σ ε} {n m k ticks ticks' : Nat} {s s' : Builder}
  {st st' : State} {h h' : History σ} {c : Wasm.State σ} {fr fr' : Frame} {r : Wasm.Result σ ε}

/-! ### Putting runs together -/

theorem Arrives.prepend (reaches : Reaches f O k (.running st h) (.running st' h'))
    (kept : SameBelow n st.vals st'.vals) (le : n ≤ m) (arrives : Arrives f O m s st' h' c fr) :
    Arrives f O n s st h c fr := by
  unfold Arrives at arrives ⊢
  split at arrives
  · obtain ⟨v, is, more⟩ := arrives
    exact ⟨v, is, (reaches.trans more).mono (Nat.zero_le _)⟩
  · obtain ⟨st'', more, head, kept'⟩ := arrives
    refine ⟨st'', (reaches.trans more).mono (Nat.le_add_left _ _), head, fun v lt apart => ?_⟩
    exact (kept' v (Nat.lt_of_lt_of_le lt le) apart).trans (kept v lt)
  · exact arrives
  all_goals
    obtain ⟨p, mem, st'', more, waits, kept'⟩ := arrives
    exact ⟨p, mem, st'', (reaches.trans more).mono (Nat.zero_le _), waits, kept.trans kept' le⟩

/-- A branch to a frame is one still after more code inside it. -/
theorem Arrives.extends (ext : fr.Extends s.func s'.func fr') (sig : s'.func.sig = s.func.sig)
    (arrives : Arrives f O n s st h c fr) : Arrives f O n s' st h c fr' := by
  have kind := ext.kind
  unfold Arrives at arrives ⊢
  split at arrives
  · next is => rw [is] at kind; simp only [kind, sig]; exact arrives
  · next head is =>
    rw [is] at kind
    obtain ⟨head', is', same, params⟩ := kind
    obtain ⟨st', reaches, at', kept⟩ := arrives
    simp only [is', same]
    exact ⟨st', reaches, ⟨at'.block, at'.index, by rw [params]; exact at'.params⟩,
      by rw [params]; exact kept⟩
  · exact arrives.elim
  · next is =>
    rw [is] at kind
    obtain ⟨p, mem, rest⟩ := arrives
    simp only [kind]
    exact ⟨p, ext.pending p mem, rest⟩
  · next e ls is =>
    rw [is] at kind
    obtain ⟨p, mem, rest⟩ := arrives
    simp only [kind]
    exact ⟨p, ext.pending p mem, rest⟩

theorem Agrees.prepend (reaches : Reaches f O k (.running st h) (.running st' h'))
    (kept : SameBelow n st.vals st'.vals) (le : n ≤ m) (enough : ticks ≤ k + ticks')
    (agrees : Agrees f O m s ticks' st' h' r) : Agrees f O n s ticks st h r := by
  cases r with
  | next c =>
    obtain ⟨st'', more, at', kept'⟩ := agrees
    exact ⟨st'', (reaches.trans more).mono (Nat.zero_le _), at', kept.trans kept' le⟩
  | branch depth c =>
    obtain ⟨fr, here, arrives⟩ := agrees
    exact ⟨fr, here, arrives.prepend reaches kept le⟩
  | ended o h'' => exact (reaches.trans agrees).mono (Nat.zero_le _)
  | exhausted h'' =>
    obtain ⟨st'', more⟩ := agrees
    exact ⟨st'', (reaches.trans more).mono enough⟩
  | stuck => exact agrees

/-- One piece of code after another. -/
theorem Agrees.andThen {rest : Wasm.State σ → Wasm.Result σ ε} (evolves : s.Evolves s') (le : n ≤ m)
    (first : Agrees f O n s ticks st h r)
    (second : ∀ c st', At f s c st' → Agrees f O m s' ticks st' c.history (rest c)) :
    Agrees f O n s' ticks st h (r.andThen rest) := by
  cases r with
  | next c =>
    obtain ⟨st', reaches, at', kept⟩ := first
    exact (second c st' at').prepend reaches kept le (Nat.le_add_left _ _)
  | branch depth c =>
    obtain ⟨fr, here, arrives⟩ := first
    obtain ⟨fr', there, ext⟩ := evolves.frames depth fr here
    exact ⟨fr', there, arrives.extends ext evolves.grows.sig⟩
  | ended o h' => exact first
  | exhausted h' => exact first
  | stuck => exact first

/-! ### Where edges meet -/

theorem Yields.isSome {g : Function} (yields : Yields g ty v) : v.isSome = ty.isSome := by
  cases ty with
  | none => cases yields; rfl
  | some ty => obtain ⟨w, rfl, -⟩ := yields; rfl

/-- An edge that waited for the end of a frame leads to the block behind it, with its values. -/
theorem Met.crossed (met : Met t s ty pending v) (sound : f.Sound) (grows : s.func.Grows f)
    (mem : p ∈ pending)
    (waits : Waits f p c st) : ∃ st', f.next st = .on st' ∧ st'.block = t.func.blocks.size ∧
      st'.index = 0 ∧
      f.readAll st'.vals s.locals.toList = some c.locals ∧
      (∀ w, v = some w → ∃ x rest, c.stack = x :: rest ∧ f.read st'.vals w = some x) ∧
      SameBelow t.func.values.size st.vals st'.vals := by
  obtain ⟨args, edge, size, drawn, locals, result⟩ := met.edges p mem
  obtain ⟨args', edge', carries⟩ := grows.edge edge
  have pSound := met.gathered.each p mem
  have older : t.func.Grows f := met.adds.grows.trans met.sound.func sound grows
  have stands : ∀ a : Nat, f.resolve (t.func.resolve a) = f.resolve a :=
    older.resolve met.gathered.sound.func.descending sound.descending
  have readLocal : ∀ (i : Nat) (a : Nat), p.locals[i]? = some a → f.read st.vals a = c.locals[i]? :=
    fun i a at' => readAll_getElem? waits.locals (by simpa using at')
  have count : c.locals.length = p.locals.size := by
    simpa using readAll_length waits.locals
  obtain ⟨xs, reads⟩ : ∃ xs, f.readAll st.vals args.toList = some xs := by
    refine readAll_isSome fun x inside => ?_
    rcases drawn x (mem_def.2 inside) with own | ⟨w, has, rfl⟩
    · obtain ⟨i, at'⟩ := mem_iff_getElem?.1 own
      have lt : i < c.locals.length := by rw [count]; exact (Array.getElem?_eq_some_iff.1 at').1
      exact ⟨c.locals[i], by rw [readLocal i x at', List.getElem?_eq_getElem lt]⟩
    · obtain ⟨x, rest, -, reads⟩ := waits.result w has
      exact ⟨x, by rw [Function.read, stands]; exact reads⟩
  obtain ⟨st', taken, block, index, params, others⟩ :=
    take_carries sound.toRegular carries size reads
  have kept : SameBelow t.func.values.size st.vals st'.vals := fun w lt =>
    others w fun inside => Nat.not_lt_of_le (met.fresh w (carries.subset w inside)) lt
  -- what stands for a merged value reads as what the edge passes for it
  have passed : ∀ a w : Nat, a < t.func.values.size →
      Passes t.func (s.func.block t.func.blocks.size).params args a w →
      f.read st'.vals w = f.read st.vals a := by
    intro a w lt passes
    rcases passes with ⟨j, b, here, given, same⟩ | rfl
    · rw [readAll_getElem? params (i := j) (by simpa using here),
        ← readAll_getElem? reads (i := j) (by simpa using given)]
      rw [Function.read, Function.read, ← stands, same, stands]
    · rw [Function.read, stands]
      exact kept _ (Nat.lt_of_le_of_lt (resolve_le sound.descending a) lt)
  refine ⟨st', waits.leaves.next edge' taken, block, index, ?_, fun w is => ?_, kept⟩
  · have sizes : s.locals.size = p.locals.size := by
      rw [met.sound.locals.size, met.types, pSound.locals.size]
    refine readAll_of_each (by simp [count, sizes]) fun i w at' => ?_
    have at' : s.locals[i]? = some w := by simpa using at'
    have lt : i < p.locals.size := by rw [← sizes]; exact (Array.getElem?_eq_some_iff.1 at').1
    obtain ⟨a, has⟩ : ∃ a, p.locals[i]? = some a := ⟨_, getElem?_eq_getElem lt⟩
    rw [passed a w (pSound.locals.lt a (mem_of_getElem? has)) (locals i a w has at')]
    exact readLocal i a has
  · have yields := pSound.result
    have there : ty.isSome := by rw [← met.yields.isSome, is]; rfl
    obtain ⟨ty', rfl⟩ := Option.isSome_iff_exists.1 there
    obtain ⟨a, has, lt, -⟩ := yields
    obtain ⟨x, rest, stack, reads⟩ := waits.result a has
    exact ⟨x, rest, stack, by rw [passed a w lt (result a w has is)]; exact reads⟩

/-- The arity of a block with the given result. -/
def arityOf (ty : Option ValType) : Option Nat := some (if ty.isSome then 1 else 0)

/-- The end of a block, where its result, if it has one, is known. -/
theorem closed_next {vals : Slots} (there : v.isSome = ty.isSome)
    (result : ∀ w, v = some w → ∃ x rest, c.stack = x :: rest ∧ f.read vals w = some x) :
    ∃ top, (c.closed (arityOf ty) around : Wasm.Result σ ε) = .next
      { c with stack := top ++ around } ∧
      f.readAll vals v.toList = some top := by
  cases v with
  | none =>
    have none : ty.isSome = false := there.symm
    exact ⟨[], by simp [Wasm.State.closed, arityOf, none], rfl⟩
  | some w =>
    have some : ty.isSome = true := there.symm
    obtain ⟨x, rest, stack, reads⟩ := result w rfl
    refine ⟨[x], by simp [Wasm.State.closed, arityOf, some, stack], ?_⟩
    exact readAll_cons_eq_some.2 ⟨x, [], reads, rfl, rfl⟩

/-- The end of a frame, reached along an edge that waits for it. -/
theorem Met.agrees {s₀ : Builder} (met : Met t s ty pending v) (stack : t.stack = s₀.stack)
    (base : s.base = s₀.base)
    (rooted : s₀.base ≤ s₀.stack.length) (sound : f.Sound) (grows : s.func.Grows f)
    (reads : f.readAll st.vals s₀.inner = some around) (old : ∀ w : Nat, w ∈ s₀.inner → w < n)
    (le : n ≤ t.func.values.size)
    (reaches : Reaches f O 0 (.running st h) (.running st' c.history))
    (kept : SameBelow n st.vals st'.vals) (mem : p ∈ pending)
    (waits : Waits f p c st') : Agrees f O n s ticks st h (c.closed (arityOf ty) around) := by
  obtain ⟨st'', next, block, index, locals, result, kept'⟩ := met.crossed sound grows mem waits
  obtain ⟨top, closed, tops⟩ := closed_next (ε := ε) (c := c) met.yields.isSome result
  have all : SameBelow n st.vals st''.vals := kept.trans kept' le
  have inner : s.inner = v.toList ++ s₀.inner :=
    Builder.inner_on (by rw [met.stack, stack]) base rooted
  rw [closed]
  refine ⟨st'', (reaches.trans (.on next)).mono (Nat.zero_le _), ⟨?_, ?_, locals, ?_⟩, all⟩
  · rw [met.current, block]
  · rw [index, block, met.empty]; rfl
  · rw [inner]
    refine readAll_append_eq_some.2 ⟨top, around, tops, ?_, rfl⟩
    rw [readAll_of_kept sound all old]
    exact reads

/-! ### Ends of frames -/

/-- `fr` is the innermost frame of `s`, and was opened at `s₀`. -/
structure Enclosed (s₀ s : Builder) (fr : Frame) (outer : List Frame) : Prop where
  control : s.control = fr :: outer
  below : s.lower = s₀.stack
  base : (outer.head?.map Frame.base).getD 0 = s₀.base
  rooted : s₀.base ≤ s₀.stack.length
  grounded : Grounded s fr

section
variable {s₀ s₁ s₂ : Builder} {outer : List Frame} {around : List Slot} {b : Nat}

section
variable (enclosed : Enclosed s₀ s₁ fr outer)
include enclosed

theorem Enclosed.base_eq : s₁.base = fr.base := by
  simp [Builder.base, enclosed.control]

theorem Enclosed.drop_eq : s₁.stack.drop (s₁.stack.length - fr.base) = s₀.stack := by
  rw [← enclosed.base_eq]; exact enclosed.below

/-- The result of a frame is the topmost of the operands inside it. -/
theorem Enclosed.result {rest : List Value} (live : s₁.current = some b)
    (taken : Taken s₁ fr.result v rest) (at' : At f s₁ c st)
    (w : Value) (is : v = some w) : ∃ x rest, c.stack = x :: rest ∧ f.read st.vals w = some x := by
  have le : s₁.base ≤ rest.length := by
    rw [enclosed.base_eq]; exact enclosed.grounded b v rest live taken
  have stack := at'.stack
  rw [Builder.inner_of_append taken.stack le, is] at stack
  obtain ⟨x, xs, reads, -, same⟩ := readAll_cons_eq_some.1 stack
  exact ⟨x, xs, same, reads⟩

/-- The end of a frame that no edge waits for. -/
theorem Straight.agrees (straight : Straight s₁ s₂ fr outer) (sound : f.Sound)
    (reads : f.readAll st.vals s₀.inner = some around)
    (old : ∀ w : Nat, w ∈ s₀.inner → w < n)
    (reaches : Reaches f O 0 (.running st h) (.running st' c.history))
    (kept : SameBelow n st.vals st'.vals) (at' : At f s₁ c st') :
    Agrees f O n s₂ ticks st h (c.closed (arityOf fr.result) around) := by
  rcases straight with ⟨dead, -⟩ | ⟨b, v, rest, live, taken, rfl⟩
  · have live := at'.block
    rw [dead] at live
    cases live
  · obtain ⟨top, closed, tops⟩ :=
      closed_next (ε := ε) (c := c) taken.there (enclosed.result live taken at')
    have inner : Builder.inner { s₁ with
        control := outer, stack := v.toList ++ s₁.stack.drop (s₁.stack.length - fr.base) } =
        v.toList ++ s₀.inner :=
      Builder.inner_on (by rw [enclosed.drop_eq]) enclosed.base enclosed.rooted
    rw [closed]
    refine ⟨st', reaches, { at' with stack := ?_ }, kept⟩
    rw [inner]
    refine readAll_append_eq_some.2 ⟨top, around, tops, ?_, rfl⟩
    rw [readAll_of_kept sound kept old]
    exact reads

variable (evolves : ({ s₁ with control := outer } : Builder).Evolves s₂)
include evolves

/-- A branch past the end of a frame. -/
theorem Agrees.outward {depth : Nat}
    (agrees : Agrees f O n s₁ ticks st h (.branch (depth + 1) c)) :
    Agrees f O n s₂ ticks st h (.branch depth c) := by
  obtain ⟨fr', here, arrives⟩ := agrees
  rw [enclosed.control] at here
  obtain ⟨fr'', there, ext⟩ := evolves.frames depth fr' here
  have arrives : Arrives f O n { s₁ with control := outer } st h c fr' :=
    Arrives.extends (s := s₁) (.refl fr' fun _ _ => rfl) rfl arrives
  exact ⟨fr'', there, arrives.extends ext evolves.grows.sig⟩

/-- What a frame ends with, seen from around it. -/
theorem Agrees.closed
    (next : ∀ c st', Reaches f O 0 (.running st h) (.running st' c.history) → At f s₁ c st' →
      SameBelow n st.vals st'.vals → Agrees f O n s₂ ticks st h (c.closed (arityOf fr.result) around))
    (branch : ∀ c, r = .branch 0 c → Arrives f O n s₁ st h c fr →
      Agrees f O n s₂ ticks st h (c.closed (arityOf fr.result) around))
    (agrees : Agrees f O n s₁ ticks st h r) :
    Agrees f O n s₂ ticks st h (r.closed (arityOf fr.result) around) := by
  cases r with
  | next c =>
    obtain ⟨st', reaches, at', kept⟩ := agrees
    exact next c st' reaches at' kept
  | branch depth c =>
    cases depth with
    | zero =>
      obtain ⟨fr', here, arrives⟩ := agrees
      rw [enclosed.control] at here
      cases (by simpa using here : fr = fr')
      exact branch c rfl arrives
    | succ depth => exact agrees.outward enclosed evolves
  | ended o h' => exact agrees
  | exhausted h' => exact agrees
  | stuck => exact agrees

end

theorem Passed.leaves {u : Builder} {p : Option Pending} (passed : Passed s₁ u fr outer p)
    (sound : s₁.Sound)
    (enclosed : Enclosed s₀ s₁ fr outer) (grows : u.func.Grows f) (at' : At f s₁ c st)
    (live : s₁.current = some b) :
    ∃ q, p = some q ∧ Waits f q c st := by
  have left := passed.left
  rw [live] at left
  obtain ⟨func, v, rest, taken, rfl⟩ := left
  have block : b = st.block := by
    have := at'.block
    rw [live] at this
    exact Option.some.inj this
  subst block
  have inside := (sound.current _ live).1
  have leave : (u.func.block st.block).leave = some ⟨.jump none, s₁.srcloc⟩ := by
    rw [func]; exact Builder.left_leave inside
  obtain ⟨steps, l, leaves, grown⟩ := grows.left _ _ leave
  have same : (u.func.block st.block).steps = (s₁.func.block st.block).steps := by
    rw [func]; simp [Builder.left, block_modifyBlock, inside]
  refine ⟨_, rfl, ⟨rfl, ?_, l, leaves, ?_⟩, at'.locals, enclosed.result live taken at'⟩
  · rw [steps, same, at'.index]; simp
  · have bare := grown.bare
    cases exit : l.exit <;> simp [exit, Exit.bare] at bare
    rfl

theorem Straight.evolves (straight : Straight s₁ s₂ fr outer) :
    ({ s₁ with control := outer } : Builder).Evolves s₂ := by
  rcases straight with ⟨-, rfl⟩ | ⟨b, v, rest, -, taken, rfl⟩
  · exact .same rfl rfl rfl
  · exact .same rfl rfl rfl

section
variable (sound₁ : s₁.Sound) (control : s₁.control = fr :: outer)
include sound₁ control

theorem Straight.sound (straight : Straight s₁ s₂ fr outer) : s₂.Sound := by
  have closed := sound₁.close control
  rcases straight with ⟨-, rfl⟩ | ⟨b, v, rest, -, taken, rfl⟩
  · exact closed.fewer fun w mem => List.mem_of_mem_drop mem
  · refine closed.fewer fun w mem => ?_
    rcases List.mem_append.1 mem with top | below
    · show w ∈ s₁.stack
      rw [taken.stack]
      exact List.mem_append_left _ top
    · exact List.mem_of_mem_drop below

theorem BlockEnds.sound (ends : BlockEnds s₁ s₂ fr outer) : s₂.Sound := by
  rcases ends with ⟨-, straight⟩ | ⟨u, p, v, pending, -, -, met⟩
  · exact straight.sound sound₁ control
  · exact met.sound

omit sound₁ in
theorem BlockEnds.evolves (ends : BlockEnds s₁ s₂ fr outer) :
    ({ s₁ with control := outer } : Builder).Evolves s₂ := by
  rcases ends with ⟨-, straight⟩ | ⟨u, p, v, pending, passed, -, met⟩
  · exact straight.evolves
  · have first := passed.evolves.tail
    rw [control, passed.control] at first
    have second : ({ u with control := outer } : Builder).Evolves s₂ :=
      .of_adds (passed.sound.close passed.control) met.adds met.types met.control
    exact Builder.Evolves.trans (t := { u with control := outer }) passed.sound.func
      met.sound.func first second

theorem BlockEnds.grows (ends : BlockEnds s₁ s₂ fr outer) (sound : f.Sound)
    (grows : s₂.func.Grows f) : s₁.func.Grows f :=
  (ends.evolves control).grows.trans (ends.sound sound₁ control).func sound grows

end

/-- The end of a `block` or an `if`, seen from around it. -/
theorem BlockEnds.agrees (ends : BlockEnds s₁ s₂ fr outer) (sound₁ : s₁.Sound)
    (enclosed : Enclosed s₀ s₁ fr outer) (kind : fr.kind = .block ∨ ∃ e ls, fr.kind = .ifBlock e ls)
    (sound : f.Sound) (grows : s₂.func.Grows f) (reads : f.readAll st.vals s₀.inner = some around)
    (old : ∀ w : Nat, w ∈ s₀.inner → w < n) (le : n ≤ s₁.func.values.size)
    (agrees : Agrees f O n s₁ ticks st h r) :
    Agrees f O n s₂ ticks st h (r.closed (arityOf fr.result) around) := by
  have evolves := ends.evolves enclosed.control
  have waiting : ∀ c, Arrives f O n s₁ st h c fr → ∃ p ∈ fr.pending, ∃ st',
      Reaches f O 0 (.running st h) (.running st' c.history) ∧ Waits f p c st' ∧
      SameBelow n st.vals st'.vals := fun c arrives => by
    unfold Arrives at arrives
    rcases kind with is | ⟨e, ls, is⟩
    · simpa only [is] using arrives
    · simpa only [is] using arrives
  rcases ends with ⟨none, straight⟩ | ⟨u, p, v, pending, passed, perm, met⟩
  · refine agrees.closed enclosed evolves
      (fun c st' reaches at' kept => straight.agrees enclosed sound reads old reaches kept at')
      fun c _ arrives => ?_
    obtain ⟨p, mem, -⟩ := waiting c arrives
    have : p ∈ fr.ending := mem_def.1 (mem_append_left _ mem)
    simp [none] at this
  · have uGrows : u.func.Grows f :=
      met.adds.grows.trans met.sound.func sound grows
    have le' : n ≤ u.func.values.size := Nat.le_trans le passed.evolves.grows.values
    have base : s₂.base = s₀.base := by
      rw [Builder.base, met.control]; exact enclosed.base
    have stack : u.stack.drop (u.stack.length - fr.base) = s₀.stack := by
      rw [passed.below]; exact enclosed.drop_eq
    -- along an edge that waits, be it the last one or one before it
    have met' : ∀ c q st', q ∈ pending → Reaches f O 0 (.running st h) (.running st' c.history) →
        Waits f q c st' → SameBelow n st.vals st'.vals →
        Agrees f O n s₂ ticks st h (c.closed (arityOf fr.result) around) :=
      fun c q st' mem reaches waits kept =>
        met.agrees stack base enclosed.rooted sound grows reads old le' reaches kept mem waits
    refine agrees.closed enclosed evolves (fun c st' reaches at' kept => ?_) fun c _ arrives => ?_
    · obtain ⟨q, rfl, waits⟩ := passed.leaves sound₁ enclosed uGrows at' at'.block
      exact met' c q st' (perm.mem_iff.2 (by simp [Frame.ending])) reaches waits kept
    · obtain ⟨q, mem, st', reaches, waits, kept⟩ := waiting c arrives
      refine met' c q st' (perm.mem_iff.2 ?_) reaches waits kept
      exact mem_def.1 (mem_append_left _ (mem_append_left _ mem))

end
end
end Wasmill.Ssa

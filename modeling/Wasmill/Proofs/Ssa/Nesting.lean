import Wasmill.Proofs.Ssa.Operators

/-! Loops and conditionals, side by side with the blocks they became. -/
namespace Wasmill.Ssa
open List

/-! ### Loops -/

section
variable {σ ε : Type} {f g : Function} {O : Outside σ ε} {n ticks : Nat} {s s₀ s₁ s₂ : Builder}
  {st : State} {h : History σ}
  {c : Wasm.State σ} {b : Nat} {ty : Option ValType} {k k' : Wasm.Checker}
  {body : Nat → Wasm.State σ → Wasm.Result σ ε}
  {r : Wasm.Result σ ε} {outer : List Frame} {head : LoopHeader} {fr : Frame}

/-- Polls at the start of a block are passed without a trace. -/
theorem polls_reach (quiet : O.Undisturbed) {i : Nat}
    (polls : ∀ j, i ≤ j → j < n → ∃ step, (f.block st.block).steps[j]? = some step ∧
      step.inst = .interruptCheck ∧ step.result = none) (index : st.index = i) (le : i ≤ n) :
    Reaches f O 0 (.running st h) (.running { st with index := n } h) := by
  induction d : n - i generalizing i st with
  | zero =>
    have same : st = { st with index := n } := by
      have : st.index = n := by omega
      rw [← this]
    rw [← same]
    exact .refl _
  | succ d ih =>
    obtain ⟨step, here, inst, result⟩ := polls i (Nat.le_refl _) (by omega)
    obtain ⟨v, answer⟩ := Outside.ask_poll quiet h
    have next : f.next st = .meet (.action .poll) step.srcloc (f.after st step) := by
      simp [Function.next, index, here, inst, Inst.demand]
    have stepped : Progress.step f O (.running st h) =
        .running { st with index := i + 1 } h := by
      simp [Progress.step, next, Outside.meet, answer, Function.after, result, index]
    have rest :
        Reaches f O 0 (.running { st with index := i + 1 } h) (.running { st with index := n } h) :=
      ih (i := i + 1) (fun j le' lt => polls j (by omega) lt) rfl (by omega) (by omega)
    exact ((Reaches.step stepped).trans rest).mono (Nat.zero_le _)

/-- From the head of a loop to the code inside it. -/
theorem LoopEntered.begin (entered : LoopEntered s s₀ b ty) (quiet : O.Undisturbed)
    (grows : s₀.func.Grows f) (head : AtHead f s₀ s.func.blocks.size c st) :
    ∃ st', Reaches f O 0 (.running st c.history) (.running st' c.history) ∧ At f s₀ c.opened st' ∧
      st'.vals = st.vals := by
  have steps := grows.steps s.func.blocks.size
  have block : st.block = s.func.blocks.size := head.block
  refine ⟨{ st with index := (s₀.func.block s.func.blocks.size).steps.size },
    polls_reach quiet (i := 0) (fun j _ lt => ?_) head.index (Nat.zero_le _), ⟨?_, ?_, ?_, ?_⟩, rfl⟩
  · obtain ⟨step, at'⟩ : ∃ step, (s₀.func.block s.func.blocks.size).steps[j]? = some step :=
      ⟨_, Array.getElem?_eq_getElem lt⟩
    refine ⟨step, ?_, entered.polls step (Array.mem_of_getElem? at')⟩
    rw [block, ← Array.getElem?_toList]
    rw [← Array.getElem?_toList] at at'
    obtain ⟨rest, same⟩ := steps
    rw [← same, getElem?_append_left (List.getElem?_eq_some_iff.1 at').1]
    exact at'
  · rw [entered.current, block]
  · rw [block]
  · rw [entered.locals]; exact head.params
  · have inner : s₀.inner = [] := by
      simp [Builder.inner, Builder.base, entered.control, entered.stack]
    rw [inner]
    rfl

/-- From before a loop to its head. -/
theorem LoopEntered.enter (entered : LoopEntered s s₀ b ty) (sound₀ : s.Sound)
    (live : s.current = some b) (sound : f.Sound) (grows : s₀.func.Grows f) (at' : At f s c st) :
    ∃ st', Reaches f O 1 (.running st c.history) (.running st' c.history) ∧
      AtHead f s₀ s.func.blocks.size c st' ∧ SameBelow s.func.values.size st.vals st'.vals := by
  obtain rfl := at'.block_eq live
  obtain ⟨steps, l, leaves, grown⟩ := grows.left _ _ entered.left
  have edge : s₀.func.edge? ⟨st.block, 0⟩ = some ⟨s.func.blocks.size, s.locals⟩ := by
    simp [Function.edge?, entered.left, Exit.edges]
  obtain ⟨args', edge', carries⟩ := grows.edge edge
  have size : s.locals.size = (s₀.func.block s.func.blocks.size).params.size := by
    rw [← entered.locals, entered.sound.locals.size, entered.types, sound₀.locals.size]
  obtain ⟨st', taken, block, index, params, others⟩ :=
    Function.take_carries sound.toRegular carries size at'.locals
  have leaving : f.Leaves st ⟨st.block, 0⟩ := by
    refine ⟨rfl, ?_, l, leaves, ?_⟩
    · rw [steps, entered.same, at'.index]; simp
    · have bare := grown.bare
      cases exit : l.exit <;> simp [exit, Exit.bare] at bare
      rfl
  refine ⟨st', .on (leaving.next edge' taken), ⟨block, index, params⟩,
    fun v lt => others v fun mem => ?_⟩
  refine Nat.not_lt_of_le (entered.fresh v ?_) lt
  rw [entered.locals]
  exact carries.subset v mem

/-- Turns of a loop do not end with a branch to it. -/
theorem turns_ne_branch (n : Nat) (c c' : Wasm.State σ) : Wasm.turns body n c ≠ .branch 0 c' := by
  induction n generalizing c with
  | zero => simp [Wasm.turns]
  | succ n ih =>
    rw [Wasm.turns]
    split
    · exact ih _
    · next other => exact fun same => other c' same

/-- Turns of a loop, from its head on. -/
theorem LoopEntered.turns (entered : LoopEntered s s₀ b ty) (quiet : O.Undisturbed)
    (evolves : s₀.Evolves s₁)
    (grows : s₀.func.Grows f)
    (inside : ∀ ticks c st, At f s₀ c st → Agrees f O s₀.func.values.size s₁ ticks st c.history
      (body ticks c)) (n : Nat)
    (c : Wasm.State σ) (st : State) (head : AtHead f s₀ s.func.blocks.size c st) :
    Agrees f O s.func.values.size s₁ (n - 1) st c.history (Wasm.turns body n c) := by
  induction n generalizing c st with
  | zero => exact ⟨st, .refl _⟩
  | succ n ih =>
    obtain ⟨st', reaches, at', same⟩ := entered.begin quiet grows head
    have kept : SameBelow s.func.values.size st.vals st'.vals := fun v _ => by rw [same]
    have le := entered.adds.values
    have body' := (inside n c.opened st' at').prepend reaches kept le (Nat.le_add_left n 0)
    rw [Wasm.turns]
    split
    · next c' is =>
      rw [is] at body'
      obtain ⟨fr', here, arrives⟩ := body'
      obtain ⟨fr₁, there, ext⟩ := evolves.frames 0 _ (by rw [entered.control]; rfl)
      rw [here] at there
      cases there
      obtain ⟨head', kind, block, params⟩ := ext.kind
      simp only [Arrives, kind] at arrives
      obtain ⟨st'', more, again, others⟩ := arrives
      rw [block] at again others
      rw [params] at others
      refine (ih c' st'' ⟨again.block, again.index, params ▸ again.params⟩).prepend more
        (fun v lt => ?_)
        (Nat.le_refl _) (by omega)
      refine others v lt fun mem => Nat.not_lt_of_le (entered.fresh v ?_) lt
      rw [entered.locals]
      exact mem
    · exact body'

/-- The end of a loop, of which parameters are dropped. -/
theorem Straight.pruned (straight : Straight { s₁ with func := g } s₂ fr outer) (sound₁ : s₁.Sound)
    (control : s₁.control = fr :: outer) (kind : fr.kind = .loop (some head))
      (pruned : s₁.func.Pruned head g) :
    s₂.func = g ∧ s₂.Sound ∧ ({ s₁ with control := outer } : Builder).Evolves s₂ := by
  obtain ⟨prunedSound, evolves⟩ := sound₁.pruned control kind pruned
  rcases straight with ⟨-, rfl⟩ | ⟨b, r, rest, -, taken, rfl⟩
  · exact ⟨rfl, prunedSound.fewer fun v mem => mem_of_mem_drop mem, { evolves with }⟩
  · refine ⟨rfl, prunedSound.fewer fun v mem => ?_, { evolves with }⟩
    rcases mem_append.1 mem with mem | mem
    · show v ∈ s₁.stack
      rw [show s₁.stack = _ from taken.stack]
      exact mem_append_left _ mem
    · exact mem_of_mem_drop mem

/-- A loop with its end, seen from around it. -/
theorem LoopEntered.agrees (entered : LoopEntered s s₀ b ty) (quiet : O.Undisturbed)
    (sound₀ : s.Sound)
    (live : s.current = some b) (inner : Simulates O k s₀ s₁ body)
    (enclosed : Enclosed s s₁ fr outer)
    (kind : fr.kind = .loop (some head)) (pruned : s₁.func.Pruned head g)
    (straight : Straight { s₁ with func := g } s₂ fr outer)
    (sound : f.Sound) (grows : s₂.func.Grows f) (at' : At f s c st) :
    Agrees f O s.func.values.size s₂ ticks st c.history
      ((Wasm.turns body ticks c).closed (arityOf fr.result) c.stack) := by
  obtain ⟨same, -, evolves'⟩ := straight.pruned inner.sound enclosed.control kind pruned
  have grows₁ : s₁.func.Grows f :=
    pruned.grows.trans pruned.sound sound (same ▸ grows)
  have grows₀ := inner.grows sound grows₁
  obtain ⟨st', reaches, atHead, kept⟩ := entered.enter (O := O) sound₀ live sound grows₀ at'
  have turned :=
    entered.turns quiet inner.evolves grows₀ (inner.agrees f sound grows₁) ticks c st' atHead
  have all := turned.prepend reaches kept (Nat.le_refl _) (show ticks ≤ 1 + (ticks - 1) by omega)
  have enclosed' : Enclosed s { s₁ with func := g } fr outer :=
    { enclosed with grounded := fun b v rest live taken =>
        enclosed.grounded b v rest live ⟨taken.there, taken.stack⟩ }
  refine all.closed enclosed evolves' (fun c' st'' reaches' at'' kept' => ?_) fun c' is _ =>
    absurd is (turns_ne_branch ticks c c')
  refine straight.agrees enclosed' sound at'.stack (fun w mem => ?_) reaches' kept'
    { at'' with index := ?_ }
  · exact sound₀.stack w (mem_of_mem_take mem)
  · rw [at''.index, pruned.steps]

/-! ### Conditionals -/

/-- The end of the first arm of an `if`, as a branch to the end of the `if`. -/
def jumped : Wasm.Result σ ε → Wasm.Result σ ε
  | .next c => .branch 0 c
  | r => r

theorem jumped_ne_next (r : Wasm.Result σ ε) (c : Wasm.State σ) : jumped r ≠ .next c := by
  cases r <;> simp [jumped]

theorem closed_jumped (r : Wasm.Result σ ε) (arity : Option Nat) (around : List Slot) :
    (jumped r).closed arity around = r.closed arity around := by
  cases r <;> rfl

/-- Code that does not just go on, with more code compiled after it. -/
theorem Agrees.later (evolves : s₀.Evolves s₁) (stays : ∀ c, r ≠ .next c)
    (agrees : Agrees f O n s₀ ticks st h r) : Agrees f O n s₁ ticks st h r := by
  cases r with
  | next c => exact absurd rfl (stays c)
  | branch depth c =>
    obtain ⟨fr, here, arrives⟩ := agrees
    obtain ⟨fr', there, ext⟩ := evolves.frames depth fr here
    exact ⟨fr', there, arrives.extends ext evolves.grows.sig⟩
  | ended _ _ | exhausted _ | stuck => exact agrees

section
variable {u : Builder} {fr : Frame} {outer : List Frame} {p : Option Pending} {e : EdgeRef}
  {ls : Array Value}

/-- The first arm, once the second is opened: its end waits for the end of the `if`. -/
theorem Agrees.jumped (passed : Passed s₁ u fr outer p)
    (second : ElseEntered u s₂ { fr with pending := fr.pending ++ p.toArray } e ls outer)
    (kind : fr.kind = .ifBlock (some e) ls)
    (sound₁ : s₁.Sound) (enclosed : Enclosed s₀ s₁ fr outer) (sound : f.Sound)
      (grows : s₂.func.Grows f)
    (agrees : Agrees f O n s₁ ticks st h r) :
    Agrees f O n s₂ ticks st h (jumped r) := by
  have uGrows : u.func.Grows f :=
    second.adds.grows.trans second.sound.func sound grows
  cases r with
  | next c =>
    obtain ⟨st', reaches, at', kept⟩ := agrees
    obtain ⟨q, rfl, waits⟩ := passed.leaves sound₁ enclosed uGrows at' at'.block
    refine ⟨_, by rw [second.control]; rfl, ?_⟩
    simp only [Arrives]
    exact ⟨q, by simp, st', reaches, waits, kept⟩
  | branch depth c =>
    obtain ⟨fr', here, arrives⟩ := agrees
    obtain ⟨fr₁, there, ext⟩ := passed.evolves.frames depth fr' here
    have arrives := arrives.extends ext passed.evolves.grows.sig
    rw [passed.control] at there
    cases depth with
    | zero =>
      cases (by simpa using there : _ = fr₁)
      refine ⟨_, by rw [second.control]; rfl, ?_⟩
      simp only [Arrives, kind] at arrives ⊢
      exact arrives
    | succ depth =>
      have framed := passed.sound.control
      rw [passed.control] at framed
      have here : outer[depth]? = some fr₁ := by simpa using there
      have same : fr₁.Extends u.func s₂.func fr₁ := .refl fr₁ fun head is => by
        obtain ⟨args, into, -⟩ := (framed.tail.loops fr₁ (mem_of_getElem? here) head is).entered
        exact second.adds.params _ _ into
      exact ⟨fr₁, by rw [second.control]; exact here, arrives.extends same second.adds.sig⟩
  | ended _ _ | exhausted _ | stuck => exact agrees

theorem IfEntered.old {cond : Value} {rest : List Value} (entered : IfEntered s s₀ b ty cond rest)
    (sound₀ : s.Sound) (w : Nat)
    (mem : w ∈ ({ s with stack := rest } : Builder).inner) : w < s.func.values.size :=
  (sound₀.pop entered.popped).stack w (mem_of_mem_take mem)

variable {cond : Value} {rest : List Value} {x : Slot} {below : List Slot}
  (entered : IfEntered s s₀ b ty cond rest)
  (live : s.current = some b) (le : s.base ≤ rest.length) (sound : f.Sound) (at' : At f s c st)
  (top : c.stack = x :: below)
include entered live le sound at' top

/-- At an `if`, either its first arm is entered or the edge around that arm is taken. -/
theorem IfEntered.choose (grows : s₀.func.Grows f) :
    At f { s with stack := rest } { c with stack := below } st ∧
      (x.low32 ≠ 0 → ∃ st', Reaches f O 0 (.running st c.history) (.running st' c.history) ∧
        At f s₀ c.opened st' ∧ st'.vals = st.vals) ∧
      (¬x.low32 ≠ 0 → f.Leaves st ⟨b, 1⟩) := by
  obtain ⟨x', below', top', reads, popped⟩ := at'.popped entered.popped le
  cases top.symm.trans top'
  obtain rfl := at'.block_eq live
  obtain ⟨steps, l, left, grown⟩ := grows.left _ _ entered.left
  have departs : l.exit.depart f st.vals = some (.edge (if x.low32 ≠ 0 then 0 else 1)) := by
    rw [Exit.depart_of_bare grown.bare]
    simp [Exit.depart, reads]
  have leaves : f.Leaves st ⟨st.block, if x.low32 ≠ 0 then 0 else 1⟩ := by
    refine ⟨rfl, ?_, l, left, departs⟩
    rw [steps, entered.same, at'.index]
    simp
  refine ⟨popped, fun taken => ?_, fun other => ?_⟩
  · rw [if_pos taken] at leaves
    have edge : s₀.func.edge? ⟨st.block, 0⟩ = some ⟨s.func.blocks.size, #[]⟩ := by
      simp [Function.edge?, entered.left, Exit.edges]
    have crossed := leaves.next_bare sound grows edge (by rw [entered.empty])
    refine ⟨_, (Reaches.on crossed).mono (Nat.zero_le 1), ⟨entered.current, ?_, ?_, ?_⟩, rfl⟩
    · show 0 = (s₀.func.block s.func.blocks.size).steps.size
      rw [entered.empty]; rfl
    · rw [entered.locals]; exact at'.locals
    · have inner : s₀.inner = [] := by
        simp [Builder.inner, Builder.base, entered.control, entered.stack]
      rw [inner]
      rfl
  · rw [if_neg other] at leaves
    exact leaves

variable {code : Nat → Wasm.State σ → Wasm.Result σ ε} (sound₀ : s.Sound)
  (inner : Simulates O k s₀ s₁ code) (enclosed : Enclosed { s with stack := rest } s₁ fr outer)
  (kind : fr.kind = .ifBlock (some ⟨b, 1⟩) s.locals)
include sound₀ inner enclosed kind

/-- An `if` without a second arm, seen from around it. -/
theorem IfEntered.agrees (ends : BlockEnds s₁ s₂ fr outer) (grows : s₂.func.Grows f) :
    Agrees f O s.func.values.size s₂ ticks st c.history
      ((if x.low32 ≠ 0 then code ticks c.opened else .next c.opened).closed
        (arityOf fr.result) below) := by
  have grows₁ := ends.grows inner.sound enclosed.control sound grows
  obtain ⟨popped, first, second⟩ :=
    entered.choose (O := O) live le sound at' top (inner.grows sound grows₁)
  have le₁ : s.func.values.size ≤ s₁.func.values.size :=
    Nat.le_trans entered.adds.values inner.evolves.grows.values
  split
  · next taken =>
    obtain ⟨st', reaches, at₀, same⟩ := first taken
    have armed := (inner.agrees f sound grows₁ ticks _ st' at₀).prepend reaches
      (fun _ _ => by rw [same]) entered.adds.values
      (Nat.le_add_left ticks 0)
    exact ends.agrees inner.sound enclosed (.inr ⟨_, _, kind⟩) sound grows popped.stack
      (entered.old sound₀) le₁ armed
  · next other =>
    have leaves := second other
    rcases ends with ⟨none, -⟩ | ⟨u, p, v, pending, passed, perm, met⟩
    · have : (⟨⟨b, 1⟩, s.locals, Option.none⟩ : Pending) ∈ fr.ending := by
        simp [Frame.ending, Frame.passing, kind]
      simp [none] at this
    · have waits : Waits f ⟨⟨b, 1⟩, s.locals, Option.none⟩ c.opened st :=
        ⟨leaves, at'.locals, fun w is => by cases is⟩
      have here : Reaches f O 0 (.running st c.history) (.running st c.opened.history) := .refl _
      have base : s₂.base = ({ s with stack := rest } : Builder).base := by
        rw [Builder.base, met.control]; exact enclosed.base
      exact met.agrees (passed.below.trans enclosed.drop_eq) base enclosed.rooted sound grows
        popped.stack
        (entered.old sound₀) (Nat.le_trans le₁ passed.evolves.grows.values) here (.refl _ _)
        (perm.mem_iff.2 (by simp [Frame.ending, Frame.passing, kind])) waits

/-- An `if` with two arms, seen from around it. -/
theorem IfEntered.agrees_else {fr' : Frame} {outer' : List Frame}
    {other : Nat → Wasm.State σ → Wasm.Result σ ε}
    {s₃ s' : Builder} (passed : Passed s₁ u fr outer p)
    (second : ElseEntered u s₂ { fr with pending := fr.pending ++ p.toArray } ⟨b, 1⟩ s.locals outer)
    (inner' : Simulates O k' s₂ s₃ other)
      (enclosed' : Enclosed { s with stack := rest } s₃ fr' outer')
    (ends : BlockEnds s₃ s' fr' outer') (kind' : fr'.kind = .block ∨ ∃ e ls,
      fr'.kind = .ifBlock e ls)
    (grows : s'.func.Grows f) :
    Agrees f O s.func.values.size s' ticks st c.history
      ((if x.low32 ≠ 0 then code ticks c.opened else other ticks c.opened).closed
        (arityOf fr'.result) below) := by
  have grows₃ := ends.grows inner'.sound enclosed'.control sound grows
  have grows₂ := inner'.grows sound grows₃
  have grows₁ : s₁.func.Grows f :=
    passed.evolves.grows.trans passed.sound.func sound
      (second.adds.grows.trans second.sound.func sound grows₂)
  obtain ⟨popped, enters, around⟩ :=
    entered.choose (O := O) live le sound at' top (inner.grows sound grows₁)
  have le₂ : s.func.values.size ≤ s₂.func.values.size :=
    Nat.le_trans (Nat.le_trans entered.adds.values inner.evolves.grows.values)
      (Nat.le_trans passed.evolves.grows.values second.adds.values)
  have le₃ := Nat.le_trans le₂ inner'.evolves.grows.values
  split
  · next taken =>
    obtain ⟨st', reaches, at₀, same⟩ := enters taken
    have armed := (inner.agrees f sound grows₁ ticks _ st' at₀).prepend reaches
      (fun _ _ => by rw [same]) entered.adds.values
      (Nat.le_add_left ticks 0)
    have waits :=
      (armed.jumped passed second kind inner.sound enclosed sound grows₂).later inner'.evolves
      (jumped_ne_next _)
    rw [← closed_jumped]
    exact ends.agrees inner'.sound enclosed' kind' sound grows popped.stack
      (entered.old sound₀) le₃ waits
  · next apart =>
    have leaves := around apart
    have crossed := leaves.next_bare sound grows₂ second.edge (by rw [second.empty])
    have base : fr.base = rest.length := by
      obtain ⟨fr₁, here, ext⟩ := inner.evolves.frames 0 _ (by rw [entered.control]; rfl)
      rw [enclosed.control] at here
      cases (by simpa using here : fr = fr₁)
      exact ext.base
    have stack : s₂.stack = rest := by
      rw [second.stack]; exact passed.below.trans enclosed.drop_eq
    have at₂ : At f s₂ c.opened ⟨u.func.blocks.size, 0, st.vals⟩ := by
      refine ⟨second.current, ?_, ?_, ?_⟩
      · rw [second.empty]; rfl
      · rw [second.locals]; exact at'.locals
      · have inner : s₂.inner = [] := by
          simp [Builder.inner, Builder.base, second.control, stack, base]
        rw [inner]
        rfl
    have armed := (inner'.agrees f sound grows₃ ticks _ _ at₂).prepend (Reaches.on crossed)
      (.refl _ _) le₂ (Nat.le_add_left ticks 1)
    exact ends.agrees inner'.sound enclosed' kind' sound grows popped.stack
      (entered.old sound₀) le₃ armed

end
end
end Wasmill.Ssa

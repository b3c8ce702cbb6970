import Wasmill.Proofs.Ssa.Reading

/-! A compiled function means what its body means.

For every body that is valid, and every function compiled from it: a call of the function and a call
of the body end in the same way or both run for ever, and perform the same actions on their
surroundings in the same order. -/
namespace Wasmill.Ssa
open Wasm Steps

section
variable {σ ε : Type} {O : Outside σ ε} {env : Env} {ctx : Context} {ty : FuncType} {sig : Sig}
  {k k' : Checker}
  {s₀ s s' : Builder} {code : Nat → Wasm.State σ → Wasm.Result σ ε} {f : Function}
  {n ticks place : Nat} {st : State}
  {h : History σ} {r : Wasm.Result σ ε} {fr : Frame}

/-! ### The end of a function -/

/-- Behind a function that is left there is no code, and no frame around it. -/
structure Over (s : Builder) : Prop where
  control : s.control = []
  dead : s.current = none

/-- The last `end` of a function. -/
theorem close_function (control : s.control = [fr]) (kind : fr.kind = .function)
    (built : Build.operator env .close s = .ok ((), s')) :
    (s.current = none ∧ s' = { s with control := [] }) ∨
      ∃ b, s.current = some b ∧ Build.ret { s with control := [] } = .ok ((), s') := by
  rw [Build.operator_close, Build.close, bind_apply _ get_apply, control] at built
  dsimp only at built
  rw [bind_apply _ set_apply, kind] at built
  dsimp only at built
  rw [bind_apply _ Build.isDead_apply] at built
  cases live : s.current with
  | none =>
    simp only [live] at built
    cases built
    exact .inl ⟨rfl, rfl⟩
  | some b =>
    simp only [live] at built
    exact .inr ⟨b, rfl, built⟩

/-- What lies on the stack at the end of a function is its result. -/
theorem Tracks.offersResult (tracks : Tracks k s) (control : s.control = [fr])
    (result : fr.result = s.func.sig.result)
    (checked : Check.operator .close k = .ok ((), k')) : Offers s s.func.sig.result := by
  obtain ⟨frame, outer, k₁, scopes, popped, -, -, -⟩ := Check.close_ok tracks.rooted checked
  obtain ⟨sc, at', marks⟩ := tracks.frames 0 fr (by rw [control]; rfl)
  rw [scopes] at at'
  cases at'
  have offered := tracks.offered popped
  rw [marks.results, result] at offered
  exact offered.offers

/-- The function returns from wherever its code ends, with the result that lies on the stack there.
-/
theorem Agrees.finished (agrees : Agrees f O n s ticks st h r) (control : s.control = [fr])
    (kind : fr.kind = .function) (returns : ∀ c st', At f s c st' → ∃ v,
      c.returned s.func.sig.result = (.ended (.returned v) c.history : Wasm.Result σ ε) ∧
        Reaches f O 0 (.running st' c.history) (.ended (.returned v) c.history)) :
    Agrees f O n s' ticks st h (r.finished s.func.sig.result) := by
  cases r with
  | next c =>
    obtain ⟨st', reaches, at', -⟩ := agrees
    obtain ⟨v, is, last⟩ := returns c st' at'
    rw [Wasm.Result.finished, is]
    exact (reaches.trans last).mono (Nat.zero_le _)
  | branch depth c =>
    obtain ⟨fr', there, arrives⟩ := agrees
    rw [control] at there
    cases depth with
    | zero =>
      cases there
      rw [Arrives, kind] at arrives
      obtain ⟨v, is, reaches⟩ := arrives
      rw [Wasm.Result.finished, is]
      exact reaches
    | succ depth => cases there
  | ended o h' => exact agrees
  | exhausted h' => exact agrees
  | stuck => exact agrees

/-- The code of a function, up to its end. -/
theorem Simulates.finished (simulates : Simulates O k s₀ s code)
    (control : s₀.control = [⟨.function, s₀.func.sig.result, 0, #[]⟩])
    (checked : Check.operator .close { k with offset := place } = .ok ((), k'))
    (built : Build.operator env .close (Build.placed s place) = .ok ((), s')) :
    s'.Sound ∧ Over s' ∧ s₀.func.Grows s'.func ∧ ∀ ticks c st, At s'.func s₀ c st →
      Agrees s'.func O s₀.func.values.size s' ticks st c.history
        ((code ticks c).finished s₀.func.sig.result) := by
  obtain ⟨fr, at', ext⟩ := simulates.evolves.frames 0 _ (by rw [control]; rfl)
  have only : s.control = [fr] := by
    have depth := simulates.evolves.depth
    rw [control] at depth
    match s.control, depth, at' with
    | [_], _, rfl => rfl
  have sig : s.func.sig = s₀.func.sig := simulates.evolves.grows.sig
  have kind : fr.kind = .function := ext.kind
  have placed : (Build.placed s place).control = [fr] := only
  rcases close_function placed kind built with ⟨dead, rfl⟩ | ⟨b, live, returned⟩
  · refine ⟨(simulates.sound.placed place).close placed, ⟨rfl, dead⟩, simulates.evolves.grows,
      fun ticks c st at' => ?_⟩
    rw [← sig]
    refine (simulates.agrees _ simulates.sound.func (.refl _) ticks c st at').finished only kind
      fun c st' at'' => ?_
    have live := at''.block
    rw [show s.current = none from dead] at live
    cases live
  · have tracks := (simulates.tracks b live).placed place
    have offers :=
      tracks.offersResult placed (ext.result.trans (congrArg Sig.result sig.symm)) checked
    obtain ⟨r, rest, peeked, stack, rfl⟩ :=
      ret_ok (s := { Build.placed s place with control := [] }) live returned
    have fewer : ({ Build.placed s place with control := [], stack := rest } : Builder).Sound :=
      ((simulates.sound.placed place).close placed).fewer fun v mem => by
        rw [stack]
        exact List.mem_append_right _ mem
    have sound : (Builder.left _ b (.ret r)).Sound := fewer.leave live fun e mem => by cases mem
    have grows := (Builder.left_evolves fewer live (.ret r)).grows
    refine ⟨sound, ⟨rfl, rfl⟩, simulates.evolves.grows.trans simulates.sound.func
      sound.func grows, fun ticks c st at' => ?_⟩
    rw [← sig]
    refine (simulates.agrees _ sound.func grows ticks c st at').finished only kind fun c st' at'' =>
      ?_
    have same :
        (({ Build.placed s place with stack := rest } : Builder).left b (.ret r)).func.Grows _ :=
        .refl _
    exact ret_reaches (simulates.sound.placed place) live (at''.placed place) peeked offers same

/-! ### A call -/

/-- What a call of a function does when a call of its body, on a clock of `ticks`, comes to the
result. -/
def Realizes (f : Function) (O : Outside σ ε) (ticks : Nat) (p : Progress σ ε) :
    Wasm.Result σ ε → Prop
  | .ended o h => Reaches f O 0 p (.ended o.narrowed h)
  | .exhausted h => ∃ st, Reaches f O ticks p (.running st h)
  | .next _ | .branch _ _ | .stuck => False

theorem Agrees.realizes {p : Progress σ ε} (gone : Over s)
    (reaches : Reaches f O 0 p (.running st h))
    (agrees : Agrees f O n s ticks st h r) : Realizes f O ticks p r := by
  cases r with
  | next c =>
    obtain ⟨st', -, at', -⟩ := agrees
    have live := at'.block
    rw [gone.dead] at live
    cases live
  | branch depth c =>
    obtain ⟨fr, there, -⟩ := agrees
    rw [gone.control] at there
    cases there
  | ended o h' => exact (reaches.trans agrees).mono (Nat.zero_le _)
  | exhausted h' =>
    obtain ⟨st', more⟩ := agrees
    exact ⟨st', (reaches.trans more).mono (by omega)⟩
  | stuck => exact agrees

section
variable {p : Progress σ ε} {call : Nat → Wasm.Result σ ε} {o : Ending ε}
  (follows : ∀ ticks, Realizes f O ticks p (call ticks))
include follows

/-- After enough steps the function is where its body is after `n` ticks, which takes no fewer
steps. -/
theorem Realizes.later (n : Nat) :
    ∃ m, n ≤ m ∧ ((∃ o h, call n = .ended o h ∧ Progress.run f O m p = .ended o.narrowed h) ∨
      ∃ st h, call n = .exhausted h ∧ Progress.run f O m p = .running st h) := by
  have here := follows n
  cases does : call n with
  | ended o h =>
    rw [does] at here
    obtain ⟨m, -, run⟩ := here
    exact ⟨m + n, Nat.le_add_left n m,
      .inl ⟨o, h, rfl, by rw [Progress.run_add, run, Progress.run_ended]⟩⟩
  | exhausted h =>
    rw [does] at here
    obtain ⟨st, m, le, run⟩ := here
    exact ⟨m, le, .inr ⟨st, h, rfl, run⟩⟩
  | next c => rw [does] at here; exact here.elim
  | branch depth c => rw [does] at here; exact here.elim
  | stuck => rw [does] at here; exact here.elim

theorem Realizes.goes (n : Nat) : Progress.run f O n p ≠ .stuck := by
  intro stuck
  obtain ⟨m, le, later⟩ := Realizes.later follows n
  have still : Progress.run f O m p = .stuck := by
    rw [← Nat.add_sub_cancel' le, Progress.run_add, stuck, Progress.run_stuck]
  rcases later with ⟨o, h, -, run⟩ | ⟨st, h, -, run⟩
  · rw [run] at still
    cases still
  · rw [run] at still
    cases still

theorem Realizes.ended_iff : (∃ n, Progress.run f O n p = .ended o h) ↔
    ∃ o', (∃ n, call n = .ended o' h) ∧ o = o'.narrowed := by
  constructor
  · rintro ⟨n, ended⟩
    obtain ⟨m, le, later⟩ := Realizes.later follows n
    have still : Progress.run f O m p = .ended o h := by
      rw [← Nat.add_sub_cancel' le, Progress.run_add, ended, Progress.run_ended]
    rcases later with ⟨o', h', does, run⟩ | ⟨st, h', -, run⟩
    · cases still.symm.trans run
      exact ⟨o', ⟨n, does⟩, rfl⟩
    · cases still.symm.trans run
  · rintro ⟨o', ⟨n, does⟩, rfl⟩
    have here := follows n
    rw [does] at here
    obtain ⟨m, -, run⟩ := here
    exact ⟨m, run⟩

theorem Realizes.actions_iff (actions : List Action) :
    (∃ n, actions <:+ (Progress.run f O n p).actions) ↔ ∃ n, actions <:+ (call n).actions := by
  have same : ∀ n, ∃ m, n ≤ m ∧ (Progress.run f O m p).actions = (call n).actions := fun n => by
    obtain ⟨m, le, ⟨o, h, does, run⟩ | ⟨st, h, does, run⟩⟩ := Realizes.later follows n
    · exact ⟨m, le, by rw [run, does]; rfl⟩
    · exact ⟨m, le, by rw [run, does]; rfl⟩
  constructor
  · rintro ⟨n, performed⟩
    obtain ⟨m, le, is⟩ := same n
    have more : (Progress.run f O n p).actions <:+ (Progress.run f O m p).actions := by
      rw [← Nat.add_sub_cancel' le, Progress.run_add]
      refine Progress.run_actions _ ?_
      rw [← Progress.run_add]
      exact Realizes.goes follows _
    exact ⟨n, is ▸ performed.trans more⟩
  · rintro ⟨n, performed⟩
    obtain ⟨m, -, is⟩ := same n
    exact ⟨m, is ▸ performed⟩

end

/-- The checker and the builder start from the same locals, in the frame of the function. -/
theorem start_tracks {zeros : Nat} {fillers : ValType → Option Value} {types : Array Ty}
    (entering : Entering O sig s zeros fillers)
    (results : ty.results = (sig.result.map Ty.num).toList)
    (locals : types.toList = s.localTypes.toList.map Ty.num) :
    Tracks (start ctx ty types) { s with control := [⟨.function, sig.result, 0, #[]⟩] } := by
  refine ⟨by rw [entering.stack]; rfl, locals, rfl, fun d fr at' => ?_, fun sc last => ?_,
    start_rooted ctx ty types⟩
  · cases d with
    | zero =>
      cases at'
      exact ⟨_, rfl, rfl, rfl, results, rfl, rfl, by rw [entering.same]⟩
    | succ d => cases at'
  · cases last
    rw [entering.same]
    exact results

theorem call_realizes {body : Body} (describes : ctx.Describes env)
    (params : ty.params = sig.params.map Ty.num)
    (results : ty.results = (sig.result.map Ty.num).toList)
    (valid : ctx.checkBody ty body.start = .ok ())
    (compiled : Function.ofBody env sig body = .ok f) (quiet : O.Undisturbed)
    (hollow : Hollow env O)
    {args : List Slot} (all : args.length = sig.params.length) (st : σ) (ticks : Nat) :
    Realizes f O ticks (.running (Function.start args) ⟨st, []⟩)
      (body.call env O sig args st ticks) := by
  obtain ⟨runs, s, fillers, t, entering, localTypes, parts⟩ := exists_parts quiet valid compiled
  obtain ⟨types, close, k, k', s₁, s', declares, inside, last, inside', last', rfl⟩ := parts.ends
  have tracks :
      Tracks (start ctx ty types) { s with control := [⟨.function, sig.result, 0, #[]⟩] } :=
    start_tracks entering results (by rw [declares, params, localTypes, List.map_append])
  have sound : ({ s with control := [⟨.function, sig.result, 0, #[]⟩] } : Builder).Sound := by
    have pushed := entering.sound.push (Builder.frame_fresh (.inr rfl) sig.result 0)
    rw [entering.control] at pushed
    exact pushed
  have simulates :=
    tree_compiles quiet hollow parts.plain parts.flat describes tracks sound entering.current
    (congrArg Sig.result entering.same) inside inside'
  have framed : ({ s with control := [⟨.function, sig.result, 0, #[]⟩] } : Builder).control =
      [⟨.function, s.func.sig.result, 0, #[]⟩] := by
    rw [entering.same]
  obtain ⟨sound', gone, grows, agrees⟩ := simulates.finished framed last last'
  obtain ⟨st₀, reaches, at', -⟩ := entering.reaches s'.func sound'.func grows args ⟨st, []⟩ all
  have inner : ({ s with control := [⟨.function, sig.result, 0, #[]⟩] } : Builder).inner = [] := by
    simp [Builder.inner, entering.stack]
  have entered : At s'.func { s with control := [⟨.function, sig.result, 0, #[]⟩] }
      ⟨args ++ List.replicate (runs.map (·.1)).sum 0, [], ⟨st, []⟩⟩ st₀ :=
    { at' with stack := by rw [inner]; rfl }
  have ends := agrees ticks _ st₀ entered
  rw [show s.func.sig.result = sig.result by rw [entering.same]] at ends
  rw [Body.call, parts.parts]
  exact ends.realizes gone reaches

/-- **A compiled function does what its body says.** Take any surroundings of a call that find no
interrupt at a check for one, and in which calls through a table without entries trap. A call of the
function ends just as a call of its body does, with the same surroundings left behind, and the
actions that it performs on its surroundings are those of the body, in the same order; neither gets
stuck. A trap stands at the place of the operator that trapped, kept in 32 bits. -/
theorem ofBody_preserves_meaning {body : Body} (describes : ctx.Describes env)
    (params : ty.params = sig.params.map Ty.num)
    (results : ty.results = (sig.result.map Ty.num).toList)
    (valid : ctx.checkBody ty body.start = .ok ()) (compiled : Function.ofBody env sig body = .ok f)
    (quiet : O.Undisturbed) (hollow : Hollow env O) (args : List Slot)
    (all : args.length = sig.params.length) (st : σ) :
    (∀ o h, f.Ends O args st o h ↔ ∃ o', body.Ends env O sig args st o' h ∧ o = o'.narrowed) ∧
      (∀ actions, f.Performs O args st actions ↔ body.Performs env O sig args st actions) ∧
      (∀ steps, Progress.run f O steps (.running (Function.start args) ⟨st, []⟩) ≠ .stuck) ∧
      ∀ clock, body.call env O sig args st clock ≠ .stuck := by
  have follows := call_realizes describes params results valid compiled quiet hollow all st
  refine ⟨fun o h => Realizes.ended_iff follows, Realizes.actions_iff follows,
    Realizes.goes follows,
    fun clock stuck => ?_⟩
  have here := follows clock
  rw [stuck] at here
  exact here

end

/-- Counts down from its argument: each turn stores a sum, and at the end the sum is divided by
zero. -/
def countdown : Body :=
  .ofBytes ⟨#[0x01, 0x01, 0x7f, 0x03, 0x40, 0x20, 0x00, 0x20, 0x01, 0x20, 0x00, 0x6a, 0x22,
    0x01, 0x36, 0x02,
    0x00, 0x20, 0x00, 0x41, 0x01, 0x6b, 0x22, 0x00, 0x0d, 0x00, 0x0b, 0x20, 0x01, 0x20, 0x00,
      0x6d, 0x0b]⟩ 40

/-- A module with one memory, and the environment that its functions are compiled in. -/
def oneMemory : Context × Env :=
  ({ memories := #[⟨⟨false, false, 1, none⟩, none⟩] }, { memory := some ⟨⟨1, none⟩, none⟩ })

/-- Surroundings that answer every action with zero. -/
def zeros : Outside Unit Unit := fun st _ => .value 0 st

theorem ofBody_preserves_meaning_countdown :
    ∃ f, Function.ofBody oneMemory.2 ⟨[.i32], some .i32⟩ countdown = .ok f ∧
      (∀ o h, f.Ends zeros [3] () o h ↔
        ∃ o', countdown.Ends oneMemory.2 zeros ⟨[.i32], some .i32⟩ [3] () o' h ∧ o = o'.narrowed) ∧
      (∀ actions, f.Performs zeros [3] () actions ↔
        countdown.Performs oneMemory.2 zeros ⟨[.i32], some .i32⟩ [3] () actions) ∧
      (∀ steps, Progress.run f zeros steps (.running (Function.start [3]) ⟨(), []⟩) ≠ .stuck) ∧
      ∀ clock, countdown.call oneMemory.2 zeros ⟨[.i32], some .i32⟩ [3] () clock ≠ .stuck := by
  obtain ⟨f, compiled⟩ :=
    exists_of_isOk (x := Function.ofBody oneMemory.2 ⟨[.i32], some .i32⟩ countdown)
    (by decide +kernel)
  obtain ⟨⟨⟩, valid⟩ := exists_of_isOk
    (x := oneMemory.1.checkBody ⟨[.num .i32], [.num .i32]⟩ countdown.start) (by decide +kernel)
  have describes : oneMemory.1.Describes oneMemory.2 :=
    ⟨fun i ty sig no => (nomatch no), fun i => rfl, fun i ty g no => (nomatch no), by decide⟩
  have quiet : zeros.Undisturbed := fun st => ⟨0, rfl⟩
  have hollow : Hollow oneMemory.2 zeros := fun desc mem => by simp [oneMemory] at mem
  exact ⟨f, compiled,
    ofBody_preserves_meaning describes rfl rfl valid compiled quiet hollow [3] rfl ()⟩

end Wasmill.Ssa

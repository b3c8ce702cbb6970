import Wasmill.Proofs.Ssa.Nesting
import Wasmill.Proofs.Ssa.Sequence

/-! The start of a function.

Its parameters are the first locals; the others are zeros, one value for each type. Once they are
there, and interrupts have been checked for, the locals hold what a call starts with. -/
namespace Wasmill.Ssa
open Steps List
variable {types : List ValType}

/-! ### A function with no code -/

/-- One block without instructions, with a parameter for each type and no other values. -/
structure Function.Blank (f : Function) (types : List ValType) : Prop where
  sound : f.Sound
  blocks : f.blocks.size = 1
  steps : (f.block 0).steps = #[]
  leave : (f.block 0).leave = none
  values : f.values.size = types.length
  params : (f.block 0).params.toList = List.range types.length
  types : ∀ (i : Nat) (ty : ValType), types[i]? = some ty → f.valueTy i = ty
  own : ∀ v : Nat, f.sameAs v = none

namespace Function

theorem Blank.param {f : Function} (blank : f.Blank types) (ty : ValType) :
    (f.newParam 0 ty).2.Blank (types ++ [ty]) where
  sound := blank.sound.newParam 0 ty
  blocks := by rw [newParam_size, blank.blocks]
  steps := by rw [(newParam_block f 0 ty 0).1, blank.steps]
  leave := by rw [(newParam_block f 0 ty 0).2, blank.leave]
  values := by simp [newParam_snd, blank.values]
  params := by
    rw [newParam_params, if_pos ⟨rfl, by rw [blank.blocks]; exact Nat.one_pos⟩, Array.toList_push,
      blank.params, blank.values, length_append, length_singleton, range_succ]
  types i ty' is := by
    rw [newParam_snd, modifyBlock_valueTy]
    rcases Nat.lt_or_ge i types.length with lt | ge
    · rw [getElem?_append_left lt] at is
      rw [newValue_valueTy_of_lt _ _ (by rw [blank.values]; exact lt)]
      exact blank.types i ty' is
    · rw [getElem?_append_right ge] at is
      obtain ⟨same, rfl⟩ : i - types.length = 0 ∧ ty = ty' := by
        cases at' : i - types.length with
        | zero => rw [at'] at is; cases is; exact ⟨rfl, rfl⟩
        | succ d => rw [at'] at is; cases is
      obtain rfl : i = f.values.size := by rw [blank.values]; omega
      exact newValue_valueTy_self f ty
  own v := by
    rw [newParam_snd, modifyBlock_sameAs, newValue_sameAs]
    exact blank.own v

theorem Blank.params_all {f : Function} {done : List ValType} (blank : f.Blank done)
    (types : List ValType) :
    (types.foldl (fun f ty => (f.newParam 0 ty).2) f).Blank (done ++ types) ∧
      (types.foldl (fun f ty => (f.newParam 0 ty).2) f).sig = f.sig := by
  induction types generalizing f done with
  | nil => exact ⟨by simpa using blank, rfl⟩
  | cons ty types ih =>
    obtain ⟨all, sig⟩ := ih (blank.param ty)
    exact ⟨by simpa using all, sig⟩

theorem blank_empty (sig : Sig) : ({ sig } : Function).Blank [] := by
  have empty : ∀ b, ({ sig } : Function).block b = {} := fun b => by cases b <;> rfl
  have own : ∀ v : Nat, ({ sig } : Function).sameAs v = none := fun v => by simp [sameAs]
  have edges : ∀ r e, ({ sig } : Function).edge? r ≠ some e := fun r e is => by
    rw [edge?, empty] at is
    cases is
  refine ⟨?_, rfl, rfl, rfl, rfl, rfl, (fun i ty is => by cases is), own⟩
  refine ⟨⟨Nat.one_pos, fun v w is => ?_, fun b p mem => ?_, fun b p _ => own p, fun b => ?_,
    fun b c p mem => ?_, fun r e is => absurd is (edges r e)⟩, fun v w is => ?_⟩
  · rw [own] at is
    cases is
  · rw [empty] at mem
    simp at mem
  · rw [empty]
    exact nodup_nil
  · rw [empty] at mem
    simp at mem
  · rw [own] at is
    cases is

/-- The function that the code of a signature is compiled into. -/
theorem ofSig_blank (sig : Sig) : (ofSig sig).Blank sig.params ∧ (ofSig sig).sig = sig :=
  (blank_empty sig).params_all sig.params

end Function

/-! ### Locals -/

/-- The types of the locals that the runs declare. -/
def declared (runs : List (Nat × ValType)) : List ValType :=
  runs.flatMap fun run => List.replicate run.1 run.2

section
variable {σ ε : Type} {O : Outside σ ε} {sig : Sig} {s s' : Builder} {zeros : Nat}
  {fillers : ValType → Option Value}
  {runs : List (Nat × ValType)} {ty : ValType} {v : Value}

/-- The builder stands in the entry block, with the parameters and `zeros` more locals bound. A
filler is a value that is zero. -/
structure Entering (O : Outside σ ε) (sig : Sig) (s : Builder) (zeros : Nat)
    (fillers : ValType → Option Value) : Prop where
  sound : s.Sound
  current : s.current = some 0
  stack : s.stack = []
  control : s.control = []
  same : s.func.sig = sig
  filled : ∀ ty v, fillers ty = some v → (v : Nat) < s.func.values.size ∧ s.func.valueTy v = ty
  reaches : ∀ f : Function, f.Sound → s.func.Grows f → ∀ args h, args.length = sig.params.length →
    ∃ st, Reaches f O 0 (.running (Function.start args) h) (.running st h) ∧
      At f s ⟨args ++ List.replicate zeros 0, [], h⟩ st ∧
      ∀ ty v, fillers ty = some v → f.read st.vals v = some 0

/-- A new zero. -/
theorem Entering.zero (entering : Entering O sig s zeros fillers) (ty : ValType) :
    Entering O sig { s.emitted 0 (.const 0) (some ty) with stack := s.stack } zeros
      fun t => if t = ty then some s.func.values.size else fillers t := by
  have live := entering.current
  have adds : s.func.Adds (s.emitted 0 (.const 0) (some ty)).func :=
    Builder.emitted_adds (entering.sound.current 0 live).2 _
  have sound : (s.emitted 0 (.const 0) (some ty)).Sound := entering.sound.emitted live _
  refine ⟨sound.fewer fun v mem => mem_cons_of_mem _ mem, live, entering.stack, entering.control,
    adds.sig.trans entering.same, fun t v is => ?_, fun f sound' grows args h all => ?_⟩
  · have size : (s.emitted 0 (.const 0) (some ty)).func.values.size = s.func.values.size + 1 :=
      Function.newValue_size s.func ty
    rw [size]
    split at is
    · next same =>
      cases is
      exact ⟨Nat.lt_succ_self _, same ▸ Function.newValue_valueTy_self s.func ty⟩
    · obtain ⟨lt, ofTy⟩ := entering.filled t v is
      exact ⟨Nat.lt_succ_of_lt lt, (adds.types v lt).trans ofTy⟩
  · have grows₀ : s.func.Grows f := adds.grows.trans sound.func sound' grows
    obtain ⟨st, reaches, at', zero⟩ := entering.reaches f sound' grows₀ args h all
    have based : s.base = 0 := by simp [Builder.base, entering.control]
    obtain ⟨st', reaches', after, kept⟩ :=
      emitted_reaches (O := O) (d := .value 0) entering.sound live at' grows rfl
      (show s.stack = [] ++ s.stack from rfl)
        (by rw [based]; exact Nat.zero_le _) sound' at'.stack rfl
    have inner : (s.emitted 0 (.const 0) (some ty)).inner = [s.func.values.size] := by
      simp [Builder.inner, Builder.base, Builder.emitted, Builder.appended, entering.stack,
        entering.control]
    have own : f.read st'.vals s.func.values.size = some 0 := by
      obtain ⟨x, rest, read, -, is⟩ := Function.readAll_cons_eq_some.1 (inner ▸ after.stack)
      cases is
      exact read
    refine ⟨st', (reaches.trans reaches').mono (Nat.zero_le _), { after with stack := ?_ },
      fun t v is => ?_⟩
    · simp only [Builder.inner, entering.stack, take_nil]
      rfl
    · split at is
      · cases is
        exact own
      · rw [← zero t v is]
        exact Function.read_of_kept sound' kept (entering.filled t v is).1

/-- The zero of a type is bound once. -/
theorem Entering.filler (entering : Entering O sig s zeros fillers)
    (h : fillers ty = some v ∧ s' = s ∨ Build.value (.const 0) ty s = .ok (v, s')) :
    s'.localTypes = s.localTypes ∧
      Entering O sig s' zeros fun t => if t = ty then some v else fillers t := by
  rcases h with ⟨is, rfl⟩ | valued
  · have same : (fun t => if t = ty then some v else fillers t) = fillers := funext fun t => by
      split
      · next eq => rw [eq, is]
      · rfl
    rw [same]
    exact ⟨rfl, entering⟩
  · rw [Build.value_apply entering.current] at valued
    cases valued
    exact ⟨rfl, entering.zero ty⟩

/-- A run of locals, all bound to `v`. -/
def Builder.bound (s : Builder) (count : Nat) (ty : ValType) (v : Value) : Builder :=
  { s with
    locals := s.locals ++ Array.replicate count v
    localTypes := s.localTypes ++ Array.replicate count ty }

theorem Fits.append_replicate {f : Function} {types : Array ValType} {vs : Array Value} {v : Nat}
    (fits : Fits f types vs) (lt : v < f.values.size) (count : Nat) :
    Fits f (types ++ Array.replicate count (f.valueTy v)) (vs ++ Array.replicate count v) where
  size := by simp [fits.size]
  lt w mem := by
    rcases Array.mem_append.1 mem with old | new
    · exact fits.lt w old
    · rw [Array.eq_of_mem_replicate new]
      exact lt
  ty i w at' := by
    rcases Nat.lt_or_ge i vs.size with old | new
    · rw [Array.getElem?_append_left old] at at'
      rw [Array.getElem?_append_left (fits.size ▸ old)]
      exact fits.ty i w at'
    · rw [Array.getElem?_append_right new] at at'
      obtain ⟨inside, rfl⟩ := Array.getElem?_eq_some_iff.1 at'
      rw [Array.getElem?_append_right (fits.size ▸ new), Array.getElem_replicate,
        Array.getElem?_replicate,
        ← fits.size, if_pos (by simpa using inside)]

theorem Entering.run (entering : Entering O sig s zeros fillers) (is : fillers ty = some v)
    (count : Nat) :
    Entering O sig (s.bound count ty v) (zeros + count) fillers := by
  obtain ⟨lt, rfl⟩ := entering.filled ty v is
  have sound := entering.sound
  refine ⟨⟨sound.func, sound.current, sound.locals.append_replicate lt count, sound.stack, ?_⟩,
    entering.current, entering.stack, entering.control, entering.same, entering.filled,
      fun f sound' grows args h all => ?_⟩
  · exact entering.control ▸ ⟨nofun, nofun, nofun, nodup_nil, nodup_nil⟩
  · obtain ⟨st, reaches, at', zero⟩ := entering.reaches f sound' grows args h all
    refine ⟨st, reaches, { at' with locals := ?_ }, zero⟩
    have more : f.readAll st.vals (List.replicate count v) = some (List.replicate count 0) :=
      Function.readAll_of_each (by simp) fun i w here => by
        obtain ⟨inside, rfl⟩ := List.getElem?_eq_some_iff.1 here
        simp only [getElem_replicate, zero _ v is]
        rw [getElem?_replicate, if_pos (by simpa using inside)]
    rw [Builder.bound, Array.toList_append, Array.toList_replicate, Function.readAll_append_eq_some]
    exact ⟨_, _, at'.locals, more, by rw [append_assoc, replicate_append_replicate]⟩

/-- All locals that are not parameters are bound to zeros. -/
theorem Entering.declare (entering : Entering O sig s zeros fillers)
    (h : Build.declareLocals.declare runs fillers s = .ok ((), s')) :
    s'.localTypes.toList = s.localTypes.toList ++ declared runs ∧
      ∃ fillers', Entering O sig s' (zeros + (runs.map (·.1)).sum) fillers' := by
  induction runs generalizing s zeros fillers with
  | nil =>
    cases h
    exact ⟨by simp [declared], fillers, entering⟩
  | cons run runs ih =>
    obtain ⟨count, ty⟩ := run
    rw [Build.declareLocals.declare] at h
    obtain ⟨v, s₁, filled, rest⟩ :
        ∃ v s₁, (fillers ty = some v ∧ s₁ = s ∨ Build.value (.const 0) ty s = .ok (v, s₁)) ∧
        Build.declareLocals.declare runs (fun t => if t = ty then some v else fillers t)
          (s₁.bound count ty v) = .ok ((), s') := by
      cases is : fillers ty with
      | some v =>
        rw [is] at h
        exact ⟨v, s, .inl ⟨rfl, rfl⟩, h⟩
      | none =>
        rw [is] at h
        obtain ⟨v, s₁, valued, rest⟩ := bind_ok h
        exact ⟨v, s₁, .inr valued, rest⟩
    obtain ⟨types, entering₁⟩ := entering.filler filled
    obtain ⟨types', fillers', entering'⟩ := ih (entering₁.run (if_pos rfl) count) rest
    refine ⟨by simp [types', types, Builder.bound, declared], fillers', ?_⟩
    rw [map_cons, sum_cons, ← Nat.add_assoc]
    exact entering'

/-! ### The whole entry -/

/-- Before any code: the parameters are the locals. -/
theorem Function.Blank.entering {g : Function} (blank : g.Blank sig.params) (same : g.sig = sig)
    (place : Nat) : Entering O sig
      { func := g, current := some 0, srcloc := place, locals := (g.block 0).params,
        localTypes := sig.params.toArray, stack := [], control := [] } 0 fun _ => none := by
  have inside : ∀ v : Nat, v ∈ (g.block 0).params → v < g.values.size := blank.sound.param_lt 0
  have size : (g.block 0).params.size = sig.params.length := by
    rw [← Array.length_toList, blank.params, length_range]
  have numbered : ∀ i v : Nat, (g.block 0).params[i]? = some v → v = i ∧ i < sig.params.length := by
    intro i v at'
    rw [← Array.getElem?_toList, blank.params] at at'
    obtain ⟨lt, rfl⟩ := List.getElem?_eq_some_iff.1 at'
    exact ⟨getElem_range lt, by simpa using lt⟩
  have fits : Fits g sig.params.toArray (g.block 0).params := by
    refine ⟨by rw [size, size_toArray], inside, fun i v at' => ?_⟩
    obtain ⟨rfl, lt⟩ := numbered i v at'
    rw [getElem?_toArray, getElem?_eq_getElem lt]
    rw [blank.types _ _ (getElem?_eq_getElem lt)]
  refine ⟨⟨blank.sound, fun b is => ?_, fits, nofun, ⟨nofun, nofun, nofun, nodup_nil, nodup_nil⟩⟩,
    rfl, rfl, rfl, same, nofun, fun f sound grows args h all => ?_⟩
  · cases is
    exact ⟨blank.sound.entry, blank.leave⟩
  · refine ⟨Function.start args, .refl _,
      ⟨rfl, by rw [show (Function.start args).block = 0 from rfl, blank.steps]; rfl, ?_, rfl⟩, nofun⟩
    rw [replicate_zero, append_nil]
    refine Function.readAll_of_each (all.trans (size.symm.trans Array.length_toList.symm))
      fun i v at' => ?_
    obtain ⟨rfl, lt⟩ := numbered i v (by rw [← Array.getElem?_toList]; exact at')
    have own : f.sameAs v = none := by
      refine (grows.kept v (by rw [blank.values]; exact lt) (blank.own v) fun b ne mem => ?_).1
      rw [show (g.block b) = {} from Function.block_of_le g (by rw [blank.blocks]; omega)] at mem
      simp at mem
    rw [Function.read, Function.resolve_of_none own]
    rfl

/-- A check for interrupts is passed without a trace. -/
theorem Entering.polled (entering : Entering O sig s zeros fillers) (quiet : O.Undisturbed) :
    Entering O sig (s.emitted 0 .interruptCheck none) zeros fillers := by
  have live := entering.current
  have adds : s.func.Adds (s.emitted 0 .interruptCheck none).func :=
    Builder.emitted_adds (entering.sound.current 0 live).2 _
  have sound : (s.emitted 0 .interruptCheck none).Sound := entering.sound.emitted live _
  refine ⟨sound, live, entering.stack, entering.control, adds.sig.trans entering.same,
    fun ty v is => entering.filled ty v is, fun f sound' grows args h all => ?_⟩
  have grows₀ : s.func.Grows f := adds.grows.trans sound.func sound' grows
  obtain ⟨st, reaches, at', zero⟩ := entering.reaches f sound' grows₀ args h all
  obtain ⟨v, answer⟩ := Outside.ask_poll quiet h
  obtain ⟨st', reaches', after, kept⟩ :=
    emitted_reaches (O := O) (d := .action .poll) entering.sound live at' grows rfl
    (show s.stack = [] ++ s.stack from rfl) (by simp [Builder.base,
      entering.control]) sound' at'.stack answer
  refine ⟨st', (reaches.trans reaches').mono (Nat.zero_le _), after, fun ty v is => ?_⟩
  rw [← zero ty v is]
  exact Function.read_of_kept sound' kept (entering.filled ty v is).1

theorem Function.Blank.moved {g : Function} (blank : g.Blank types) (place : Nat) :
    ({ g with srcloc := place } : Function).Blank types :=
  ⟨{ blank.sound with }, blank.blocks, blank.steps, blank.leave, blank.values, blank.params,
    blank.types, blank.own⟩

/-- The code of a function starts with its locals bound, inside the frame of the function. -/
theorem entry_ok {env : Env} {place : Nat} (quiet : O.Undisturbed)
    (h : entry env sig place runs = .ok ((), s')) :
    ∃ s fillers, Entering O sig s (runs.map (·.1)).sum fillers ∧
      s.localTypes.toList = sig.params ++ declared runs ∧
      s' = { s with control := [⟨.function, sig.result, 0, #[]⟩] } := by
  have blank := (Function.ofSig_blank sig).1.moved place
  have same : ({ Function.ofSig sig with srcloc := place } : Function).sig = sig :=
    (Function.ofSig_blank sig).2
  rw [entry, Builder.ofSig] at h
  generalize ({ Function.ofSig sig with srcloc := place } : Function) = g at h blank same
  obtain ⟨_, s₁, locals, rest⟩ := bind_ok h
  obtain ⟨_, s₂, polls, framed⟩ := bind_ok rest
  rw [Build.declareLocals, bind_apply _ get_apply] at locals
  dsimp only at locals
  split at locals
  · cases locals
  rw [bind_apply _ (modify_apply _)] at locals
  dsimp only at locals
  rw [same] at locals
  obtain ⟨types, fillers, entering⟩ := (blank.entering (O := O) same place).declare locals
  rw [Nat.zero_add] at entering
  rw [toList_toArray] at types
  have pushed : s' = { s₂ with control := ⟨.function, sig.result, 0, #[]⟩ :: s₂.control } := by
    cases framed
    rfl
  cases mode : env.interruptMode with
  | signal =>
    rw [mode] at polls
    cases polls
    exact ⟨s₁, fillers, entering, types, by rw [pushed, entering.control]⟩
  | polling =>
    rw [mode, Build.interruptCheck, Build.append_apply entering.current] at polls
    cases polls
    have polled := entering.polled quiet
    exact ⟨_, fillers, polled, types, by rw [pushed]; exact congrArg _ (congrArg _ polled.control)⟩

end
end Wasmill.Ssa

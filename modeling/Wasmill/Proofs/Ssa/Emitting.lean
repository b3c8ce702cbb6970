import Wasmill.Proofs.Ssa.Tracking

/-! Operators that become one instruction.

Such an operator takes its operands, and the instruction does with their values what the operator
does with the operands. -/
namespace Wasmill.Ssa
open Wasm Steps Ssa.Function List Build
variable {index : Nat} {f : Function} {vals : Slots} {xs : List Slot}

/-- The operator becomes an instruction that does the same. -/
def Emits (env : Env) (o : Operator) (k' : Checker) (s s' : Builder) (b : Nat) : Prop :=
  ∃ inst ty taken rest, s.stack = taken ++ rest ∧ s.base ≤ rest.length ∧
    s' = ({ s with stack := rest } : Builder).emitted b inst ty ∧ Tracks k' s' ∧
    ∀ (f : Function) (vals : Slots) (xs below : List Slot), f.readAll vals taken = some xs →
      ∃ d, inst.demand f vals = some d ∧ o.demand env (xs ++ below) = some (d, ty.isSome, below)

section
variable {env : Env} {o : Operator} {k k₁ k' : Checker} {s t s' : Builder} {b n : Nat} {inst : Inst}
  {ty : ValType}
  {rest taken vs : List Value} {fty : FuncType} {arg : MemArg} {a : Value}

/-- With its operands taken, the operator leaves a result, or none. -/
theorem emits {r : Option ValType} (taken : List Value) (sound : s.Sound)
    (live : s.current = some b) (stack : s.stack = taken ++ rest) (le : s.base ≤ rest.length)
    (tracks : Tracks k₁ { s with stack := rest })
    (pushed : Check.pushAll (r.map Ty.num).toList k₁ = .ok ((), k'))
    (built : Build.emit inst r { s with stack := rest } = .ok ((), s'))
    (computes : ∀ (f : Function) (vals : Slots) (xs below : List Slot),
      f.readAll vals taken = some xs →
      ∃ d, inst.demand f vals = some d ∧ o.demand env (xs ++ below) = some (d, r.isSome, below)) :
    Emits env o k' s s' b := by
  have live' : ({ s with stack := rest } : Builder).current = some b := live
  rw [emit_apply live'] at built
  cases built
  have fewer := sound.below stack
  refine ⟨inst, r, taken, rest, stack, le, rfl, ?_, computes⟩
  cases r with
  | none => cases pushed; exact tracks.appended fewer live'
  | some ty => cases pushed; exact tracks.emitted fewer live'

/-- The topmost operand is known. -/
theorem popMany_unique (stack : s.stack = taken ++ rest) (size : taken.length = n)
    (h : Build.popMany n s = .ok (vs, t)) :
    vs = taken.reverse ∧ t = { s with stack := rest } := by
  obtain ⟨-, rfl, rfl⟩ := popMany_ok h
  subst size
  rw [stack, take_left, drop_left]
  exact ⟨rfl, rfl⟩

/-! ### Reading operands -/

theorem readAll_one (h : f.readAll vals [a] = some xs) :
    ∃ x, f.read vals a = some x ∧ xs = [x] := by
  obtain ⟨x, _, first, last, rfl⟩ := readAll_cons_eq_some.1 h
  cases last
  exact ⟨x, first, rfl⟩

theorem readAll_two {b : Value} (h : f.readAll vals [a, b] = some xs) :
    ∃ x y, f.read vals a = some x ∧ f.read vals b = some y ∧ xs = [x, y] := by
  obtain ⟨x, _, first, more, rfl⟩ := readAll_cons_eq_some.1 h
  obtain ⟨y, second, rfl⟩ := readAll_one more
  exact ⟨x, y, first, second, rfl⟩

theorem readAll_reverse (h : f.readAll vals vs = some xs) :
    f.readAll vals vs.reverse = some xs.reverse := by
  induction vs generalizing xs with
  | nil => cases h; rfl
  | cons v vs ih =>
    obtain ⟨x, rest, first, more, rfl⟩ := readAll_cons_eq_some.1 h
    rw [reverse_cons, reverse_cons]
    refine readAll_append_eq_some.2 ⟨_, [x], ih more, ?_, rfl⟩
    exact readAll_cons_eq_some.2 ⟨x, [], first, rfl, rfl⟩

/-! ### Asking the context -/

theorem orReject_ok {α : Type} {reason : String} {x : Option α} {a : α}
    (h : Check.orReject reason x k = .ok (a, k')) : k' = k ∧ x = some a := by
  cases x with
  | none => cases h
  | some a' => cases h; exact ⟨rfl, rfl⟩

theorem memoryTy_ok (describes : k.ctx.Describes env) (h : Check.memoryTy index k = .ok (ty, k')) :
    k' = k ∧ ty = .i32 := by
  obtain ⟨m, k₁, found, last⟩ := bind_ok (after_context h :)
  obtain ⟨rfl, at'⟩ := orReject_ok found
  cases last
  refine ⟨rfl, ?_⟩
  rw [Check.indexTy, describes.memories m (Array.mem_of_getElem? at')]
  rfl

theorem memArg_ok {log2 : Nat} (describes : k.ctx.Describes env)
    (h : Check.memArg arg log2 k = .ok (ty, k')) : k' = k := by
  obtain ⟨ty', k₁, found, rest⟩ := bind_ok h
  obtain ⟨rfl, rfl⟩ := memoryTy_ok describes found
  obtain ⟨-, rest⟩ := demand_ok rest
  obtain ⟨-, last⟩ := demand_ok rest
  cases last
  rfl

theorem globalAt_ok {g : ContentType} (h : Check.globalAt index k = .ok (g, k')) :
    k' = k ∧ k.ctx.globals[index]? = some g := orReject_ok (after_context h :)

theorem Build.globalAt_ok {g : GlobalDesc} (h : Build.globalAt env index s = .ok (g, t)) :
    t = s ∧ env.globals[index]? = some g := by
  unfold Build.globalAt at h
  cases found : env.globals[index]? with
  | none => simp only [found] at h; cases h
  | some g' => simp only [found] at h; cases h; exact ⟨rfl, rfl⟩

theorem Build.memoryOffset_ok {offset : Nat}
    (h : Build.memoryOffset env arg s = .ok (offset, t)) : t = s ∧ offset = arg.offset := by
  unfold Build.memoryOffset at h
  split at h
  · cases h
  · split at h
    · cases h
    · cases h; exact ⟨rfl, rfl⟩

theorem Build.checkMemory_ok {memory : Nat}
    (h : Build.checkMemory env memory s = .ok ((), t)) : t = s := by
  unfold Build.checkMemory at h
  split at h
  · cases h
  · split at h
    · cases h
    · cases h; rfl

theorem Build.checkLane_ok {shape : LaneShape} {lane : Nat}
    (h : Build.checkLane shape lane s = .ok ((), t)) : t = s := by
  unfold Build.checkLane at h
  split at h
  · cases h; rfl
  · cases h

theorem describes_callee {ctx : Context} {callee : Nat} {sig : Sig} (describes : ctx.Describes env)
    (type : ctx.typeOfFunc? callee = some fty) (found : env.sigOf? callee = some sig) :
    fty.params = sig.params.map Ty.num ∧ fty.results = (sig.result.map Ty.num).toList := by
  obtain ⟨i, at', type⟩ := Option.bind_eq_some_iff.1 type
  obtain ⟨j, at'', found⟩ := Option.bind_eq_some_iff.1 found
  rw [describes.funcs, at''] at at'
  obtain rfl := Option.some.inj at'
  exact describes.sigs j fty sig type found

theorem tableAt_ok {table : TableType} (h : Check.tableAt index k = .ok (table, k')) : k' = k :=
  (orReject_ok (after_context h :)).1

theorem funcTypeAt_ok (h : Check.funcTypeAt index k = .ok (fty, k')) :
    k' = k ∧ k.ctx.funcType? index = some fty := orReject_ok (after_context h :)

/-- The index of an indirect call is taken. -/
theorem Tracks.indirect {sigIndex table : Nat} (tracks : Tracks k s)
    (h : Check.indirect sigIndex table k = .ok (fty, k')) :
    ∃ index rest, s.stack = index :: rest ∧ k.ctx.funcType? sigIndex = some fty ∧
      Tracks k' { s with stack := rest } := by
  obtain ⟨_, k₁, known, rest₁⟩ := bind_ok h
  obtain rfl := tableAt_ok known
  obtain ⟨-, rest₂⟩ := demand_ok (after_context rest₁ :)
  obtain ⟨_, k₂, popped, typed⟩ := bind_ok rest₂
  obtain ⟨index, rest, stack, -, -, same, after⟩ := tracks.pop popped
  obtain ⟨rfl, type⟩ := funcTypeAt_ok typed
  exact ⟨index, rest, stack, by rw [same] at type; exact type, after⟩

theorem length_of_types {types : List Ty} {type : Value → Ty}
    (are : types.reverse = taken.map type) : taken.length = types.length := by
  simpa using (congrArg List.length are).symm

/-- Two operands are taken. -/
theorem Tracks.popTwo {t₁ t₂ : Ty} (tracks : Tracks k s)
    (h : Check.popAll [t₁, t₂] k = .ok ((), k')) :
    ∃ b a rest, s.stack = [b, a] ++ rest ∧ s.base ≤ rest.length ∧
      Tracks k' { s with stack := rest } := by
  obtain ⟨taken, rest, stack, le, are, -, after⟩ := tracks.popAll h
  obtain ⟨b, a, rfl⟩ := length_eq_two.1 (length_of_types are)
  exact ⟨b, a, rest, stack, le, after⟩

/-! ### Operators -/

/-- Operators of which each becomes one instruction. -/
def computes : Operator → Bool
  | .select | .typedSelect _ | .globalGet _ | .globalSet _ | .load _ _ | .store _ _ | .memorySize _
  | .memoryGrow _ | .const _ | .unary _ | .binary _ | .convert _ | .splat _ | .extractLane _ _ _
  | .replaceLane _ _ | .shuffle _ | .call _ => true
  | _ => false

/-- The arguments of a call, as the operator and as the instruction take them. -/
theorem operands_eq {below : List Slot} (size : taken.length = n)
    (reads : f.readAll vals taken = some xs) :
    operands n (xs ++ below) = some (xs.reverse, below) := by
  have length : xs.length = n := (readAll_length reads).trans size
  subst length
  simp [operands]

/-- One of two operands, chosen by a third. -/
theorem emits_select {cond ifFalse ifTrue : Value} (tracks : Tracks k₁ { s with stack := rest })
    (sound : s.Sound) (live : s.current = some b)
      (stack : s.stack = [cond, ifFalse, ifTrue] ++ rest)
    (le : s.base ≤ rest.length) (pushed : Check.pushNum (s.func.valueTy ifTrue) k₁ = .ok ((), k'))
    (built : Build.select s = .ok ((), s'))
    (does : ∀ c e t st, o.demand env (c :: e :: t :: st) =
      some (.value (if c.low32 ≠ 0 then t else e), true, st)) : Emits env o k' s s' b := by
  have built := after_pop stack built
  have built := after_pop (s := { s with stack := _ }) rfl built
  have built := after_pop (s := { s with stack := _ }) rfl built
  have last := after_get built
  refine emits (r := some _) [_, _, _] sound live stack le tracks pushed last
    fun f vals xs below reads => ?_
  obtain ⟨c, _, first, more, rfl⟩ := readAll_cons_eq_some.1 reads
  obtain ⟨e, t, second, third, rfl⟩ := readAll_two more
  exact ⟨_, by simp [Inst.demand, first, second, third], does c e t below⟩

/-- The operator is checked and compiled, from one pair of states to another. -/
structure CheckedAndBuilt (env : Env) (o : Operator) (k k' : Checker) (s s' : Builder) : Prop where
  checked : Check.operator o k = .ok ((), k')
  built : Build.operator env o s = .ok ((), s')

/-- Live code is compiled as such. -/
theorem CheckedAndBuilt.live (goes : CheckedAndBuilt env o k k' s s') (live : s.current = some b) :
    Build.live env o s = .ok ((), s') := by
  have built := goes.built
  rw [Build.operator, bind_apply _ isDead_apply, live] at built
  exact built

section
variable (tracks : Tracks k s) (sound : s.Sound) (live : s.current = some b)
include tracks sound live

/-- An operator with a result and no operands. -/
theorem emits_none {d : Demand} (pushed : Check.pushNum ty k = .ok ((), k'))
    (built : Build.pushValue inst ty s = .ok ((), s'))
    (gives : ∀ (f : Function) (vals : Slots), inst.demand f vals = some d)
    (asks : ∀ below : List Slot, o.demand env below = some (d, true, below)) :
    Emits env o k' s s' b :=
  emits (r := some _) [] sound live rfl tracks.based tracks pushed built
    fun f vals _ below reads => by
    cases reads
    exact ⟨d, gives f vals, asks below⟩

/-- An operator with one operand and a result. -/
theorem emits_one {ty' : ValType} {mk : Value → Inst} {d : Slot → Demand}
    (checked : (do Check.popNum ty'; Check.pushNum ty : Check Unit) k = .ok ((), k'))
    (built : (do Build.pushValue (mk (← Build.pop)) ty : Build Unit) s = .ok ((), s'))
    (gives : ∀ (f : Function) (vals : Slots) (v : Value),
      (mk v).demand f vals = (f.read vals v).bind fun x => some (d x))
    (asks : ∀ (x : Slot) (below : List Slot), o.demand env (x :: below) = some (d x, true, below)) :
    Emits env o k' s s' b := by
  obtain ⟨_, k₁, popped, pushed⟩ := bind_ok checked
  obtain ⟨v, rest, stack, le, -, -, after⟩ := tracks.pop popped
  refine emits (r := some _) [v] sound live stack le after pushed (after_pop stack built)
    fun f vals xs below reads => ?_
  obtain ⟨x, read, rfl⟩ := readAll_one reads
  exact ⟨d x, by rw [gives, read]; rfl, asks x below⟩

/-- An operator with two operands and a result. -/
theorem emits_two {t₁ t₂ : Ty} {mk : Value → Value → Inst} {d : Slot → Slot → Demand}
    (checked : (do Check.popAll [t₁, t₂]; Check.pushNum ty : Check Unit) k = .ok ((), k'))
    (built : (do
      let b ← Build.pop
      Build.pushValue (mk (← Build.pop) b) ty : Build Unit) s = .ok ((), s'))
    (gives : ∀ (f : Function) (vals : Slots) (v w : Value), (mk v w).demand f vals =
      (f.read vals v).bind fun x => (f.read vals w).bind fun y => some (d x y))
    (asks : ∀ (x y : Slot) (below : List Slot),
      o.demand env (y :: x :: below) = some (d x y, true, below)) :
    Emits env o k' s s' b := by
  obtain ⟨_, k₁, popped, pushed⟩ := bind_ok checked
  obtain ⟨w, v, rest, stack, le, after⟩ := tracks.popTwo popped
  have built := after_pop stack built
  have last := after_pop (s := { s with stack := v :: rest }) rfl built
  refine emits (r := some _) [w, v] sound live stack le after pushed last
    fun f vals xs below reads => ?_
  obtain ⟨y, x, second, first, rfl⟩ := readAll_two reads
  exact ⟨d x y, by rw [gives, first, second]; rfl, asks x y below⟩

theorem operator_emits (is : computes o) (describes : k.ctx.Describes env)
    (goes : CheckedAndBuilt env o k k' s s') :
    Emits env o k' s s' b := by
  have checked := goes.checked
  have built := goes.live live
  cases o with
  | unary op | convert op | splat op =>
    exact emits_one tracks sound live checked built (fun _ _ _ => rfl) fun _ _ => rfl
  | binary op =>
    exact emits_two tracks sound live checked built (fun _ _ _ _ => rfl) fun _ _ _ => rfl
  | extractLane shape signed lane =>
    obtain ⟨_, t, lanes, last⟩ := bind_ok built
    obtain rfl := checkLane_ok lanes
    exact emits_one tracks sound live checked last (fun _ _ _ => rfl) fun _ _ => rfl
  | replaceLane shape lane =>
    obtain ⟨_, t, lanes, last⟩ := bind_ok built
    obtain rfl := checkLane_ok lanes
    exact emits_two tracks sound live checked last (fun _ _ _ _ => rfl) fun _ _ _ => rfl
  | shuffle lanes =>
    rw [Build.live] at built
    cases found : lanes.find? (· ≥ 32) with
    | some lane => simp only [found] at built; cases built
    | none =>
      simp only [found] at built
      exact emits_two tracks sound live checked built (fun _ _ _ _ => rfl) fun _ _ _ => rfl
  | const v => exact emits_none tracks sound live checked built (fun _ _ => rfl) fun _ => rfl
  | memorySize memory =>
    obtain ⟨ty, k₁, known, pushed⟩ := bind_ok checked
    obtain ⟨rfl, rfl⟩ := memoryTy_ok describes known
    obtain ⟨_, t, there, last⟩ := bind_ok built
    obtain rfl := checkMemory_ok there
    exact emits_none tracks sound live pushed last (fun _ _ => rfl) fun _ => rfl
  | memoryGrow memory =>
    obtain ⟨ty, k₁, known, more⟩ := bind_ok checked
    obtain ⟨rfl, rfl⟩ := memoryTy_ok describes known
    obtain ⟨_, t, there, last⟩ := bind_ok built
    obtain rfl := checkMemory_ok there
    exact emits_one tracks sound live more last (fun _ _ _ => rfl) fun _ _ => rfl
  | load kind arg =>
    obtain ⟨ty, k₁, known, more⟩ := bind_ok checked
    obtain rfl := memArg_ok describes known
    obtain ⟨offset, t, there, last⟩ := bind_ok built
    obtain ⟨rfl, rfl⟩ := memoryOffset_ok there
    exact emits_one tracks sound live more last (fun _ _ _ => rfl) fun _ _ => rfl
  | store kind arg =>
    obtain ⟨ty, k₁, known, popped⟩ := bind_ok checked
    obtain rfl := memArg_ok describes known
    obtain ⟨w, v, rest, stack, le, after⟩ := tracks.popTwo popped
    obtain ⟨offset, t, there, last⟩ := bind_ok built
    obtain ⟨rfl, rfl⟩ := memoryOffset_ok there
    have last := after_pop stack last
    have last := after_pop (s := { t with stack := _ }) rfl last
    refine emits (r := none) [_, _] sound live stack le after rfl last
      fun f vals xs below reads => ?_
    obtain ⟨y, x, first, second, rfl⟩ := readAll_two reads
    exact ⟨_, by simp [Inst.demand, first, second], rfl⟩
  | globalGet index =>
    obtain ⟨g, k₁, known, pushed⟩ := bind_ok checked
    obtain ⟨rfl, at'⟩ := globalAt_ok known
    obtain ⟨desc, t, there, last⟩ := bind_ok built
    obtain ⟨rfl, found⟩ := Build.globalAt_ok there
    have pushed : Check.pushNum desc.ty.content k₁ = .ok ((), k') := by
      rw [describes.globals index g desc at' found] at pushed
      exact pushed
    exact emits_none tracks sound live pushed last (fun _ _ => rfl) fun _ => by
      simp [Operator.demand, found]
  | globalSet index =>
    obtain ⟨g, k₁, known, more⟩ := bind_ok checked
    obtain ⟨rfl, -⟩ := globalAt_ok known
    obtain ⟨-, popped⟩ := demand_ok more
    obtain ⟨v, rest, stack, le, -, -, after⟩ := tracks.pop popped
    obtain ⟨desc, t, there, last⟩ := bind_ok built
    obtain ⟨rfl, found⟩ := Build.globalAt_ok there
    refine emits (r := none) [_] sound live stack le after rfl (after_pop stack last)
      fun f vals xs below reads => ?_
    obtain ⟨x, read, rfl⟩ := readAll_one reads
    exact ⟨.action (.globalSet desc.ty.content desc.place x), by simp [Inst.demand, read],
      by simp [Operator.demand, found]⟩
  | typedSelect ty =>
    obtain ⟨-, more⟩ := demand_ok (after_context checked :)
    obtain ⟨_, k₁, popped, pushed⟩ := bind_ok more
    obtain ⟨taken, rest, stack, le, are, -, after⟩ := tracks.popAll popped
    obtain ⟨cond, ifFalse, ifTrue, rfl⟩ := length_eq_three.1 (length_of_types are)
    simp only [reverse_cons, reverse_nil, nil_append, cons_append, map_cons, map_nil,
      List.cons.injEq] at are
    rw [are.2.2.1] at pushed
    exact emits_select after sound live stack le pushed built fun _ _ _ _ => rfl
  | select =>
    obtain ⟨_, k₁, popped, more⟩ := bind_ok checked
    obtain ⟨cond, rest, stack, -, -, -, tracks₁⟩ := tracks.pop popped
    obtain ⟨_, k₂, popped', more'⟩ := bind_ok more
    obtain ⟨ifFalse, rest', stack', -, rfl, -, tracks₂⟩ := tracks₁.popAny popped'
    obtain ⟨_, k₃, popped'', more''⟩ := bind_ok more'
    obtain ⟨ifTrue, rest'', stack'', le, rfl, -, tracks₃⟩ := tracks₂.popAny popped''
    simp only [Function.operand] at more''
    obtain ⟨equal, pushed⟩ := demand_ok more''
    have same : s.func.valueTy ifFalse = s.func.valueTy ifTrue := by simpa using equal
    have pushed : Check.pushNum (s.func.valueTy ifTrue) k₃ = .ok ((), k') := by
      rw [← same]; exact pushed
    have stack : s.stack = [cond, ifFalse, ifTrue] ++ rest'' := by
      rw [stack, show rest = ifFalse :: rest' from stack',
        show rest' = ifTrue :: rest'' from stack'']
      rfl
    exact emits_select tracks₃ sound live stack le pushed built fun _ _ _ _ => rfl
  | call callee =>
    obtain ⟨fty, k₁, known, more⟩ := bind_ok (after_context checked :)
    obtain ⟨rfl, type⟩ := orReject_ok known
    obtain ⟨_, k₂, popped, pushed⟩ := bind_ok more
    obtain ⟨taken, rest, stack, le, are, -, after⟩ := tracks.popAll popped
    have built : Build.call env callee s = .ok ((), s') := built
    unfold Build.call at built
    cases found : env.sigOf? callee with
    | none => simp only [found] at built; cases built
    | some sig =>
      simp only [found] at built
      obtain ⟨params, results⟩ := describes_callee describes type found
      have size : taken.length = sig.params.length := by simpa [params] using length_of_types are
      obtain ⟨args, _, first, built⟩ := bind_ok built
      obtain ⟨rfl, rfl⟩ := popMany_unique stack size first
      rw [results] at pushed
      cases imported : env.funcImports[callee]? with
      | some desc =>
        simp only [imported] at built
        refine emits taken sound live stack le after pushed built fun f vals xs below reads => ?_
        refine ⟨.action (.callImport callee desc.record xs.reverse), ?_, ?_⟩
        · simp [Inst.demand, readAll_reverse reads]
        · simp [Operator.demand, found, operands_eq size reads, imported]
      | none =>
        simp only [imported] at built
        refine emits taken sound live stack le after pushed built fun f vals xs below reads => ?_
        refine ⟨.action (.call callee xs.reverse), ?_, ?_⟩
        · simp [Inst.demand, readAll_reverse reads]
        · simp [Operator.demand, found, operands_eq size reads, imported]
  | _ => cases is

/-- A call through an empty table has become a trap. -/
def TrapsEmpty (env : Env) (o : Operator) (s s' : Builder) (b : Nat) : Prop :=
  ∃ desc taken rest, desc ∈ env.tables ∧ desc.Empty ∧ s.stack = taken ++ rest ∧
    s.base ≤ rest.length ∧
    s' = ({ s with stack := rest } : Builder).left b (.trap .tableOutOfBounds) ∧
    ∀ xs below : List Slot, xs.length = taken.length → ∃ ty token index args pushes,
      o.demand env (xs ++ below) =
        some (.action (.callIndirect ty desc.handle token index args), pushes, below)

theorem callIndirect_emits {sigIndex table : Nat} (describes : k.ctx.Describes env)
    (goes : CheckedAndBuilt env (.callIndirect sigIndex table) k k' s s') :
    Emits env (.callIndirect sigIndex table) k' s s' b ∨
      TrapsEmpty env (.callIndirect sigIndex table) s s' b := by
  -- what the checker takes: the index, then the arguments
  obtain ⟨fty, k₁, indirect, more⟩ := bind_ok goes.checked
  obtain ⟨index, below, stack, type, tracks₁⟩ := tracks.indirect indirect
  obtain ⟨_, k₂, popped, pushed⟩ := bind_ok more
  obtain ⟨taken, rest, stack', le, are, -, after⟩ := tracks₁.popAll popped
  have stack : s.stack = (index :: taken) ++ rest := by
    rw [stack, show below = taken ++ rest from stack']
    rfl
  -- what the builder takes
  have built : Build.callIndirect env sigIndex table s = .ok ((), s') := goes.live live
  unfold Build.callIndirect at built
  cases found : env.sigs[sigIndex]? with
  | none => simp only [found] at built; cases built
  | some sig =>
    cases there : env.tables[table]? with
    | none => simp only [found, there] at built; cases built
    | some desc =>
      simp only [found, there] at built
      obtain ⟨params, results⟩ := describes.sigs _ _ _ type found
      have size : taken.length = sig.params.length := by simpa [params] using length_of_types are
      obtain ⟨args, _, second, last⟩ := bind_ok (after_pop stack built)
      obtain ⟨rfl, rfl⟩ := popMany_unique (s := { s with stack := taken ++ rest }) rfl size second
      split at last
      · next empty =>
        have live' : ({ s with stack := rest } : Builder).current = some b := live
        obtain ⟨_, _, left, last'⟩ := bind_ok last
        rw [leave_apply live'] at left
        cases left
        cases last'
        refine .inr ⟨desc, _, rest, Array.mem_of_getElem? there,
          ⟨by simpa using empty.1, empty.2⟩, stack, le,
          rfl, fun xs below length => ?_⟩
        match xs, length with
        | x :: xs, length =>
          have length : xs.length = sig.params.length := by simpa [size] using length
          refine ⟨sigIndex, env.sigToken sigIndex, x, xs.reverse, sig.result.isSome, ?_⟩
          simp [Operator.demand, found, there, operands, ← length]
      · rw [results] at pushed
        refine .inl (emits _ sound live stack le after pushed last fun f vals xs below reads => ?_)
        obtain ⟨x, xs', first, more, rfl⟩ := readAll_cons_eq_some.1 reads
        refine ⟨.action (.callIndirect sigIndex desc.handle (env.sigToken sigIndex) x xs'.reverse),
          ?_, ?_⟩
        · simp [Inst.demand, first, readAll_reverse more]
        · simp [Operator.demand, found, there, operands_eq size more]

end
end
end Wasmill.Ssa

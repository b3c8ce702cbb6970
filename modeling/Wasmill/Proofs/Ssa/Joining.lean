import Wasmill.Proofs.Ssa.Branching

/-! Where control comes together while a body is compiled: at the head of a loop, at the start and
in the middle of an `if`, and at the end of a frame. -/
namespace Wasmill.Ssa
open Build Steps List
variable {g : Function} {args : List (Array Value)} {s : Builder}

/-! ### Parameters -/

namespace Function

/-- Block `t` got the parameters `vs`, and nothing else changed. -/
structure Widened (g g' : Function) (t : Nat) (vs : List Value) : Prop where
  adds : g.Adds g'
  sound : g'.Sound
  params : (g'.block t).params.toList = (g.block t).params.toList ++ vs
  steps : (g'.block t).steps = (g.block t).steps
  leave : (g'.block t).leave = (g.block t).leave
  others : ∀ c, c ≠ t → g'.block c = g.block c
  size : g'.blocks.size = g.blocks.size
  fresh : ∀ v : Nat, v ∈ vs → g.values.size ≤ v ∧ v < g'.values.size

variable {g h f : Function} {t : Nat} {vs ws : List Value}

theorem Widened.refl (sound : g.Sound) (t : Nat) : Widened g g t [] where
  adds := .refl g
  sound := sound
  params := by simp
  steps := rfl
  leave := rfl
  others _ _ := rfl
  size := rfl
  fresh := by simp

theorem Widened.trans (first : Widened g h t vs) (second : Widened h f t ws) :
    Widened g f t (vs ++ ws) where
  adds := first.adds.trans second.adds
  sound := second.sound
  params := by rw [second.params, first.params, append_assoc]
  steps := second.steps.trans first.steps
  leave := second.leave.trans first.leave
  others c ne := (second.others c ne).trans (first.others c ne)
  size := second.size.trans first.size
  fresh v mem := by
    rcases mem_append.1 mem with old | new
    · exact ⟨(first.fresh v old).1, Nat.lt_of_lt_of_le (first.fresh v old).2 second.adds.values⟩
    · exact ⟨Nat.le_trans first.adds.values (second.fresh v new).1, (second.fresh v new).2⟩

theorem Widened.edgeAt? (wide : Widened g h t vs) (r : EdgeRef) : h.edgeAt? r = g.edgeAt? r := by
  by_cases here : r.block = t
  · simp [Function.edgeAt?, here, wide.leave]
  · simp [Function.edgeAt?, wide.others _ here]

theorem Widened.edge? (wide : Widened g h t vs) (r : EdgeRef) : h.edge? r = g.edge? r := by
  rw [edge?_eq_join, wide.edgeAt?, ← edge?_eq_join]

theorem newParam_widened (sound : g.Sound) (lt : t < g.blocks.size)
    (alone : ∀ r e, g.edge? r = some e → e.block ≠ t) (ty : ValType) :
    Widened g (g.newParam t ty).2 t [g.values.size] where
  adds := newParam_adds alone ty
  sound := sound.newParam t ty
  params := by simp [newParam_params, lt]
  steps := (g.newParam_block t ty t).1
  leave := (g.newParam_block t ty t).2
  others c ne := by simp [newParam_snd, block_modifyBlock, Ne.symm ne]
  size := newParam_size g t ty
  fresh v mem := by
    rw [mem_singleton.1 mem]
    exact ⟨Nat.le_refl _, by rw [newParam_snd]; simp⟩

theorem newParam_valueTy (g : Function) (t : Nat) (ty : ValType) :
    (g.newParam t ty).2.valueTy g.values.size = ty := newValue_valueTy_self g ty

end Function

/-- A parameter of each type. -/
theorem newParams_ok {t : Nat} (sound : s.func.Sound) (lt : t < s.func.blocks.size)
    (alone : ∀ r e, s.func.edge? r = some e → e.block ≠ t) (types : List ValType) :
    ∃ vs func, newParams t types s = .ok (vs, { s with func }) ∧ s.func.Widened func t vs ∧
      vs.map func.valueTy = types := by
  induction types generalizing s with
  | nil => exact ⟨[], s.func, rfl, .refl sound t, rfl⟩
  | cons ty rest ih =>
    have first := Function.newParam_widened sound lt alone ty
    obtain ⟨vs, func, more, wide, typed⟩ := ih (s := { s with func := (s.func.newParam t ty).2 })
      first.sound (by rw [first.size]; exact lt) fun r e into => alone r e (first.edge? r ▸ into)
    refine ⟨s.func.values.size :: vs, func, ?_, first.trans wide, ?_⟩
    · rw [newParams, mapM_cons, bind_apply _ (newParam_apply ty)]
      exact bind_apply _ more
    · have lt := (first.fresh s.func.values.size (by simp)).2
      rw [map_cons, typed, wide.adds.types _ lt, Function.newParam_valueTy]

/-! ### Merging values -/

/-- What an edge has for the value `m` behind it: an argument that stands for `a`, if `m` is a
parameter; otherwise `m` is what `a` stands for. -/
def Passes (g : Function) (params args : Array Value) (a m : Value) : Prop :=
  (∃ (j : Nat) (a' : Value),
    params[j]? = some m ∧ args[j]? = some a' ∧ g.resolve a' = g.resolve a) ∨
    g.resolve a = m

theorem Passes.push {params args : Array Value} {a m : Value} (passes : Passes g params args a m)
    (p x : Value)
    (same : args.size = params.size) : Passes g (params.push p) (args.push x) a m := by
  rcases passes with ⟨j, a', at', passed, stands⟩ | stands
  · have inside := (Array.getElem?_eq_some_iff.1 at').1
    refine .inl ⟨j, a', ?_, ?_, stands⟩
    · rw [Array.getElem?_push, if_neg (Nat.ne_of_lt inside)]; exact at'
    · rw [Array.getElem?_push, if_neg (by omega)]; exact passed
  · exact .inr stands

theorem passes_last {params args : Array Value} {a x : Value} (p : Value)
    (same : args.size = params.size)
    (stands : g.resolve x = g.resolve a) : Passes g (params.push p) (args.push x) a p :=
  .inl ⟨params.size, x, by simp, by simp [← same], stands⟩

/-- What an edge passes is a value of its own: one of its locals, or its result. -/
def Drawn (g : Function) (p : Pending) (x : Value) : Prop :=
  x ∈ p.locals ∨ ∃ v, p.result = some v ∧ x = g.resolve v

/-- The values `merged` for the first locals where the edges of `pending` meet in block `join`,
which had no parameters in `g₀`. -/
structure Merging (g₀ : Function) (types : Array ValType) (join : Nat) (pending : List Pending)
    (g : Function) (merged : Array Value) (args : List (Array Value)) : Prop where
  wide : ∃ vs, g₀.Widened g join vs
  count : args.length = pending.length
  sizes : ∀ a ∈ args, a.size = (g.block join).params.size
  each : ∀ i m : Nat, merged[i]? = some m → m < g.values.size ∧ types[i]? = some (g.valueTy m) ∧
    ∀ (k : Nat) (p : Pending) (a : Array Value), pending[k]? = some p → args[k]? = some a →
      Passes g₀ (g.block join).params a (p.locals.getD i 0) m
  drawn : ∀ (k : Nat) (p : Pending) (a : Array Value), pending[k]? = some p → args[k]? = some a →
    ∀ x ∈ a, Drawn g₀ p x

section
variable {s : Builder} {g₀ : Function} {types : Array ValType} {join k : Nat}
  {pending : List Pending} {merged : Array Value}
  {args : List (Array Value)} {ty : ValType}

/-- A block that got parameters while edges are merged, and that none of them leads to yet. -/
structure JoinReady (g₀ : Function) (join : Nat) : Prop where
  sound : g₀.Sound
  lt : join < g₀.blocks.size
  alone : ∀ r e, g₀.edge? r = some e → e.block ≠ join

theorem getElem?_pushed {values : List Value} {a : Array Value}
    (at' : (args.zipWith Array.push values)[k]? = some a) :
    ∃ b x, args[k]? = some b ∧ values[k]? = some x ∧ a = b.push x := by
  rw [getElem?_zipWith] at at'
  split at at'
  · next b x left right => cases at'; exact ⟨b, x, left, right, rfl⟩
  · cases at'

theorem Fits.getD {f : Function} {vs : Array Value} (fits : Fits f types vs) {i : Nat}
    (at' : types[i]? = some ty) :
    vs[i]? = some (vs.getD i 0) ∧ (vs.getD i 0 : Nat) < f.values.size ∧
      f.valueTy (vs.getD i 0) = ty := by
  have inside : i < vs.size := by rw [fits.size]; exact (Array.getElem?_eq_some_iff.1 at').1
  have here : vs[i]? = some (vs.getD i 0) := by
    simp [Array.getD_eq_getD_getElem?, Array.getElem?_eq_getElem inside]
  have typed := fits.ty i _ here
  rw [at'] at typed
  exact ⟨here, fits.lt _ (Array.mem_of_getElem? here), (Option.some.inj typed).symm⟩

section
variable (merging : Merging g₀ types join pending g merged args)
include merging

theorem Merging.passed {p : Pending} (here : pending[k]? = some p) : ∃ a, args[k]? = some a :=
  ⟨_, getElem?_eq_getElem (by rw [merging.count]; exact (List.getElem?_eq_some_iff.1 here).1)⟩

/-- The value `v` where the edges meet, for what each of them has. -/
structure MeetsIn (g₀ g : Function) (join : Nat) (pending : List Pending)
    (args : List (Array Value)) (has : Pending → Value)
    (ty : ValType) (v : Nat) : Prop where
  inside : v < g.values.size
  typed : g.valueTy v = ty
  passes : ∀ (k : Nat) (p : Pending) (a : Array Value), pending[k]? = some p → args[k]? = some a →
    Passes g₀ (g.block join).params a (has p) v

/-- The merged values with one more, for the next local. -/
theorem Merging.next {v : Nat} (at' : types[merged.size]? = some ty)
    (gives : MeetsIn g₀ g join pending args (fun p => p.locals.getD merged.size 0) ty v) :
    Merging g₀ types join pending g (merged.push v) args := by
  refine { merging with each := fun i m at'' => ?_ }
  rw [Array.getElem?_push] at at''
  split at at''
  · next last => cases at''; rw [last]; exact ⟨gives.inside, by rw [gives.typed]; exact at',
      gives.passes⟩
  · exact merging.each i m at''

theorem Merging.fits (size : types.size ≤ merged.size) : Fits g types merged where
  size := by
    refine Nat.le_antisymm (Nat.le_of_not_lt fun long => ?_) size
    obtain ⟨-, typed, -⟩ := merging.each types.size _ (Array.getElem?_eq_getElem long)
    simp at typed
  lt v mem := by
    obtain ⟨i, at'⟩ := Array.mem_iff_getElem?.1 mem
    exact (merging.each i v at').1
  ty i v at' := (merging.each i v at').2.1

end

section
variable (merging : Merging g₀ types join pending s.func merged args)
include merging

variable (ready : JoinReady g₀ join)
include ready

theorem Merging.resolve (v : Nat) : s.func.resolve v = g₀.resolve v := by
  obtain ⟨vs, wide⟩ := merging.wide
  exact Function.resolve_congr ready.sound.descending wide.sound.descending wide.adds.aliases v

variable {has : Pending → Value}

/-- All edges have the same. -/
theorem Merging.shared {p₀ : Pending} (first : p₀ ∈ pending)
    (known : ∀ p ∈ pending, (has p : Nat) < g₀.values.size ∧ g₀.valueTy (has p) = ty)
    (same : ∀ p ∈ pending, s.func.resolve (has p) = s.func.resolve (has p₀)) :
    MeetsIn g₀ s.func join pending args has ty (s.func.resolve (has p₀)) := by
  have stands := merging.resolve ready
  obtain ⟨vs, wide⟩ := merging.wide
  obtain ⟨small, is⟩ := known p₀ first
  refine ⟨?_, ?_, fun k p a here _ => .inr ?_⟩
  · exact Nat.lt_of_le_of_lt (Function.resolve_le wide.sound.descending _)
      (Nat.lt_of_lt_of_le small wide.adds.values)
  · rw [wide.sound.resolve_ty, wide.adds.types _ small, is]
  · rw [← stands, same p (mem_of_getElem? here)]

/-- A new parameter of the join, for which each edge passes a value of its own. -/
theorem Merging.widen (ty : ValType) {own : Pending → Value}
    (drawn : ∀ p ∈ pending, Drawn g₀ p (own p))
    (stands : ∀ p ∈ pending, g₀.resolve (own p) = g₀.resolve (has p)) : let func :=
  (s.func.newParam join ty).2
    Merging g₀ types join pending func merged (args.zipWith Array.push (pending.map own)) ∧
      MeetsIn g₀ func join pending
        (args.zipWith Array.push (pending.map own)) has ty s.func.values.size := by
  intro func
  obtain ⟨vs, wide⟩ := merging.wide
  have lt : join < s.func.blocks.size := by rw [wide.size]; exact ready.lt
  have more := Function.newParam_widened wide.sound lt
    (fun r e into => ready.alone r e (wide.edge? r ▸ into)) ty
  have params : (func.block join).params = (s.func.block join).params.push s.func.values.size := by
    simp [func, Function.newParam_params, lt]
  -- an edge passes what it did, and its own value
  have passed {k : Nat} {p : Pending} {a : Array Value} (here : pending[k]? = some p)
      (at' : (args.zipWith Array.push (pending.map own))[k]? = some a) : ∃ b, args[k]? = some b ∧
        a = b.push (own p) := by
    obtain ⟨b, x, left, right, rfl⟩ := getElem?_pushed at'
    rw [getElem?_map, here] at right
    cases right
    exact ⟨b, left, rfl⟩
  refine ⟨⟨⟨_, wide.trans more⟩, by simp [merging.count], fun a mem => ?_, fun i m at' => ?_,
    fun k p a here at' x mem => ?_⟩,
    (more.fresh _ (by simp)).2, Function.newParam_valueTy _ _ _, fun k p a here at' => ?_⟩
  · obtain ⟨k, at'⟩ := mem_iff_getElem?.1 mem
    obtain ⟨b, x, left, -, rfl⟩ := getElem?_pushed at'
    rw [params, Array.size_push, Array.size_push, merging.sizes b (mem_of_getElem? left)]
  · obtain ⟨inside, typed, each⟩ := merging.each i m at'
    refine ⟨Nat.lt_of_lt_of_le inside more.adds.values, ?_, fun k p a here at' => ?_⟩
    · rw [more.adds.types m inside]; exact typed
    · obtain ⟨b, left, rfl⟩ := passed here at'
      rw [params]
      exact (each k p b here left).push _ _ (merging.sizes b (mem_of_getElem? left))
  · obtain ⟨b, left, rfl⟩ := passed here at'
    rcases Array.mem_push.1 mem with old | rfl
    · exact merging.drawn k p b here left x old
    · exact drawn p (mem_of_getElem? here)
  · obtain ⟨b, left, rfl⟩ := passed here at'
    rw [params]
    exact passes_last _ (merging.sizes b (mem_of_getElem? left)) (stands p (mem_of_getElem? here))

variable (some' : pending ≠ [])
include some'

theorem mergeLocal_ok (fits : ∀ p ∈ pending, Fits g₀ types p.locals)
    (at' : types[merged.size]? = some ty) :
    ∃ v passed func, mergeLocal join pending merged.size ty s = .ok ((v, passed), { s with func }) ∧
      Merging g₀ types join pending func (merged.push v)
        (match passed with
          | some values => args.zipWith Array.push values
          | none => args) := by
  obtain ⟨p₀, ps, rfl⟩ := exists_cons_of_ne_nil some'
  simp only [mergeLocal, bind_apply _ get_apply, map_cons]
  split
  · next same =>
    refine ⟨_, none, s.func, rfl, merging.next at' (merging.shared ready mem_cons_self
      (fun p mem => ((fits p mem).getD at').2) ?_)⟩
    simpa using same
  · obtain ⟨wider, gives⟩ :=
      merging.widen ready ty (fun p mem => .inl (Array.mem_of_getElem? ((fits p mem).getD at').1))
      fun _ _ => rfl
    exact ⟨s.func.values.size, some _, (s.func.newParam join ty).2, rfl, wider.next at' gives⟩

theorem mergeLocals_ok (fits : ∀ p ∈ pending, Fits g₀ types p.locals) {todo : List ValType}
    (left : types.toList.drop merged.size = todo) : ∃ merged' args' func,
      mergeLocals join pending merged.size todo merged args s = .ok ((merged', args'),
        { s with func }) ∧
      Merging g₀ types join pending func merged' args' ∧ types.size ≤ merged'.size := by
  induction todo generalizing s merged args with
  | nil =>
    refine ⟨merged, args, s.func, rfl, merging, ?_⟩
    simpa using drop_eq_nil_iff.1 left
  | cons ty rest ih =>
    have at' : types[merged.size]? = some ty := by
      rw [← Array.getElem?_toList, ← head?_drop, left]
      rfl
    obtain ⟨v, passed, func, first, merging'⟩ := mergeLocal_ok merging ready some' fits at'
    have left' : types.toList.drop (merged.push v).size = rest := by
      rw [Array.size_push, ← drop_drop, left]
      rfl
    obtain ⟨merged', args', func', more, final, size⟩ := ih (s := { s with func }) merging' left'
    refine ⟨merged', args', func', ?_, final, size⟩
    rw [mergeLocals, bind_apply _ first]
    rw [Array.size_push] at more
    exact more

/-- The block result, which every edge has. -/
theorem mergeResult_ok (yields : ∀ p ∈ pending, Yields g₀ (some ty) p.result) :
    ∃ v args' func, mergeResult join pending ty args s = .ok ((some v, args'), { s with func }) ∧
      Merging g₀ types join pending func merged args' ∧
        MeetsIn g₀ func join pending args' (·.result.getD 0) ty v := by
  obtain ⟨p₀, ps, rfl⟩ := exists_cons_of_ne_nil some'
  have stands := merging.resolve ready
  obtain ⟨vs, wide⟩ := merging.wide
  have values : (p₀ :: ps).filterMap (fun p =>
      (p.result.filter fun v => s.func.valueTy v = ty).map s.func.resolve) =
      (p₀ :: ps).map fun p => s.func.resolve (p.result.getD 0) := by
    refine filterMap_eq_map_iff_forall_eq_some.2 fun p mem => ?_
    obtain ⟨v, is, small, typed⟩ := yields p mem
    rw [is, Option.filter_some, if_pos (by simp [wide.adds.types v small, typed])]
    rfl
  simp only [mergeResult, bind_apply _ get_apply, values]
  rw [if_neg (by simp)]
  simp only [map_cons]
  split
  · next same =>
    have known (p : Pending) (mem : p ∈ p₀ :: ps) :
        (p.result.getD 0 : Nat) < g₀.values.size ∧ g₀.valueTy (p.result.getD 0) = ty := by
      obtain ⟨v, is, known⟩ := yields p mem
      simpa [is] using known
    exact ⟨_, args, s.func, rfl, merging,
      merging.shared ready mem_cons_self known (by simpa using same)⟩
  · have drawn (p : Pending) (mem : p ∈ p₀ :: ps) :
        Drawn g₀ p (s.func.resolve (p.result.getD 0)) := by
      obtain ⟨v, has, -⟩ := yields p mem
      exact .inr ⟨v, has, by simp [has, stands]⟩
    have same (p : Pending) (_ : p ∈ p₀ :: ps) :
        g₀.resolve (s.func.resolve (p.result.getD 0)) = g₀.resolve (p.result.getD 0) := by
      rw [stands]
      exact Function.resolve_resolve ready.sound.descending _
    obtain ⟨wider, gives⟩ := merging.widen ready ty drawn same
    exact ⟨s.func.values.size, _, (s.func.newParam join ty).2, rfl, wider, gives⟩

end
end

/-! ### Filling in the edges -/

/-- Edges that waited lead to `join` now, each with its arguments. -/
structure Bound (g g' : Function) (join : Nat) (pending : List Pending)
    (args : List (Array Value)) :
    Prop where
  adds : g.Adds g'
  sound : g'.Sound
  values : g'.values = g.values
  size : g'.blocks.size = g.blocks.size
  params : ∀ c, (g'.block c).params = (g.block c).params
  steps : ∀ c, (g'.block c).steps = (g.block c).steps
  unleft : ∀ c, (g.block c).leave = none → (g'.block c).leave = none
  others : ∀ r, r ∉ pending.map (·.source) → g'.edgeAt? r = g.edgeAt? r
  edges : ∀ (k : Nat) (p : Pending) (a : Array Value), pending[k]? = some p → args[k]? = some a →
    g'.edge? p.source = some ⟨join, a⟩

theorem bindEdges_ok {join : Nat} {pending : List Pending} (sound : s.func.Sound)
    (lt : join < s.func.blocks.size)
    (waits : ∀ p ∈ pending, s.func.edgeAt? p.source = some none)
    (once : (pending.map (·.source)).Nodup)
    (count : args.length = pending.length) : ∃ func, bindEdges join pending args s = .ok ((),
      { s with func }) ∧
      Bound s.func func join pending args := by
  induction pending generalizing s args with
  | nil =>
    refine ⟨s.func, by simp [bindEdges], .refl _, sound, rfl, rfl, fun _ => rfl, fun _ => rfl,
      fun _ => id, fun _ _ => rfl, ?_⟩
    simp
  | cons p rest ih =>
    obtain ⟨a, more, rfl⟩ := exists_cons_of_length_pos (l := args) (by rw [count]; simp)
    have here := waits p mem_cons_self
    rw [map_cons, nodup_cons] at once
    have size : (s.func.setEdge p.source ⟨join, a⟩).blocks.size = s.func.blocks.size := by
      simp [Function.setEdge, Function.modifyEdge]
    have at' : ∀ r, (s.func.setEdge p.source ⟨join, a⟩).edgeAt? r =
        if p.source = r then some (some ⟨join, a⟩) else s.func.edgeAt? r := fun r => by
      rw [Function.setEdge, Function.edgeAt?_modifyEdge]
      by_cases same : p.source = r
      · simp [← same, here]
      · simp [same]
    have count : more.length = rest.length := by simpa using count
    obtain ⟨func, bound, facts⟩ := ih (s := { s with func := s.func.setEdge p.source ⟨join, a⟩ })
      (sound.setEdge here lt) (by rw [size]; exact lt)
      (fun q mem => by
        rw [at', if_neg]
        · exact waits q (mem_cons_of_mem p mem)
        · intro same
          exact once.1 (same ▸ mem_map.2 ⟨q, mem, rfl⟩))
      once.2 count
    refine ⟨func, ?_, ?_⟩
    · rw [bindEdges]
      exact bound
    · exact
        { adds := (Function.setEdge_adds here _).trans facts.adds
          sound := facts.sound
          values := facts.values
          size := facts.size.trans size
          params := fun c => (facts.params c).trans (s.func.modifyEdge_block p.source _ c).1
          steps := fun c => (facts.steps c).trans (s.func.modifyEdge_block p.source _ c).2
          unleft := fun c none => facts.unleft c (Function.modifyEdge_unleft none)
          others := fun r apart => by
            rw [map_cons, mem_cons, not_or] at apart
            rw [facts.others r apart.2, at', if_neg (Ne.symm apart.1)]
          edges := fun k q b is passed => by
            cases k with
            | zero =>
              cases (by simpa using is : p = q)
              cases (by simpa using passed : a = b)
              rw [Function.edge?_eq_join, facts.others _ once.1, at', if_pos rfl]
              rfl
            | succ k => exact facts.edges k q b (by simpa using is) (by simpa using passed) }

/-! ### Meeting -/

/-- Edges that wait for the end of a frame, all of which are known. -/
structure Gathered (s : Builder) (result : Option ValType) (pending : List Pending) : Prop where
  sound : s.Sound
  nonempty : pending ≠ []
  each : ∀ p ∈ pending, p.Sound s.func s.localTypes result
  once : (pending.map (·.source)).Nodup
  apart : ∀ p ∈ pending, p.source ∉ s.control.flatMap Frame.waiting

/-- What comes of letting edges meet: a new block, to which all of them lead. -/
structure Met (s s' : Builder) (result : Option ValType) (pending : List Pending)
    (r : Option Value) :
    Prop where
  gathered : Gathered s result pending
  sound : s'.Sound
  adds : s.func.Adds s'.func
  control : s'.control = s.control
  types : s'.localTypes = s.localTypes
  current : s'.current = some s.func.blocks.size
  stack : s'.stack = r.toList ++ s.stack
  yields : Yields s'.func result r
  empty : (s'.func.block s.func.blocks.size).steps = #[]
  fresh : ∀ q : Nat, q ∈ (s'.func.block s.func.blocks.size).params → s.func.values.size ≤ q
  edges : ∀ p ∈ pending, ∃ args, s'.func.edge? p.source = some ⟨s.func.blocks.size, args⟩ ∧
    args.size = (s'.func.block s.func.blocks.size).params.size ∧ (∀ x ∈ args, Drawn s.func p x) ∧
    (∀ (i : Nat) (a m : Value), p.locals[i]? = some a → s'.locals[i]? = some m →
      Passes s.func (s'.func.block s.func.blocks.size).params args a m) ∧
    ∀ a m : Value, p.result = some a → r = some m →
      Passes s.func (s'.func.block s.func.blocks.size).params args a m

section
variable {s s' : Builder} {frame : Frame} {pending : List Pending}

variable (gathered : Gathered s frame.result pending)
include gathered

theorem Gathered.ready : JoinReady s.func.newBlock.2 s.func.blocks.size where
  sound := gathered.sound.func.newBlock
  lt := by simp
  alone r e into := by
    rw [Function.newBlock_edge?] at into
    exact Nat.ne_of_lt (gathered.sound.func.target_lt r e into)

/-- The edges are filled in, once the locals and the result are merged. -/
theorem Gathered.met {merged : Array Value} {r : Option Value} {t : Builder}
    (merging : Merging s.func.newBlock.2 s.localTypes s.func.blocks.size pending g merged args)
    (size : s.localTypes.size ≤ merged.size) (yields : Yields g frame.result r)
    (gives : ∀ m, r = some m → ∃ ty,
      MeetsIn s.func.newBlock.2 g s.func.blocks.size pending args (·.result.getD 0) ty m)
    (state : t = { s with func := g }) (h : (do
      bindEdges s.func.blocks.size pending args
      enter s.func.blocks.size
      modify fun s => { s with locals := merged }
      pushAll r : Build Unit) t = .ok ((), s')) : Met s s' frame.result pending r := by
  subst state
  obtain ⟨vs, wide⟩ := merging.wide
  have ready := gathered.ready
  have lt : s.func.blocks.size < g.blocks.size := by rw [wide.size]; exact ready.lt
  have waits : ∀ p ∈ pending, g.edgeAt? p.source = some none := fun p mem => by
    rw [wide.edgeAt?]
    simpa [Function.edgeAt?] using (gathered.each p mem).waits
  obtain ⟨func, bound, facts⟩ :=
    bindEdges_ok (s := { s with func := g }) wide.sound lt waits gathered.once merging.count
  rw [bind_apply _ bound, bind_apply _ enter_apply, bind_apply _ (modify_apply _)] at h
  have adds : s.func.Adds func :=
    ((Function.newBlock_adds s.func).trans wide.adds).trans facts.adds
  have stands : ∀ v : Nat, s.func.newBlock.2.resolve v = s.func.resolve v :=
    Function.resolve_congr gathered.sound.func.descending ready.sound.descending fun _ => rfl
  have params := facts.params s.func.blocks.size
  have yields' : Yields func frame.result r :=
    yields.mono facts.adds.values facts.adds.types
  have waits' : ∀ e ∈ s.control.flatMap Frame.waiting, func.edgeAt? e = some none := fun e mem => by
    rw [facts.others e, wide.edgeAt?]
    · simpa [Function.edgeAt?] using gathered.sound.control.waits mem
    · intro listed
      obtain ⟨p, mine, rfl⟩ := mem_map.1 listed
      exact gathered.apart p mine mem
  have framed : Framed func s.localTypes ([] ++ []) s.control := by
    refine gathered.sound.control.adds adds waits' fun e d into => ?_
    by_cases listed : e ∈ pending.map (·.source)
    · obtain ⟨p, mine, rfl⟩ := mem_map.1 listed
      obtain ⟨k, here⟩ := mem_iff_getElem?.1 mine
      obtain ⟨a, passed⟩ := merging.passed here
      rw [facts.edges k p a here passed] at into
      cases into
      exact .inr (.inr fun mem => Nat.lt_irrefl _ (gathered.sound.header_lt mem))
    · refine .inl ?_
      rw [Function.edge?_eq_join, facts.others e listed, wide.edgeAt?] at into
      rw [Function.edge?_eq_join]
      simpa [Function.edgeAt?] using into
  have unleft : (func.block s.func.blocks.size).leave = none :=
    facts.unleft _ (by rw [wide.leave]; simp [s.func.block_of_le (Nat.le_refl _)])
  have result : s' = { s with
      func := func, current := some s.func.blocks.size, locals := merged
      stack := r.toList ++ s.stack } := by
    cases r with
    | none => simp only [pushAll, pure_apply] at h; cases h; rfl
    | some v => simp only [pushAll, push_apply] at h; cases h; rfl
  subst result
  exact
    { gathered := gathered
      sound :=
        { func := facts.sound
          current := fun b live => by cases live; exact ⟨by rw [facts.size]; exact lt, unleft⟩
          locals := (merging.fits size).mono facts.adds.values facts.adds.types
          stack := fun v mem => by
            rcases mem_append.1 mem with new | old
            · exact yields'.lt v (Option.mem_toList.1 new)
            · exact Nat.lt_of_lt_of_le (gathered.sound.stack v old) adds.values
          control := framed }
      adds := adds
      control := rfl
      types := rfl
      current := rfl
      stack := rfl
      yields := yields'
      empty := by rw [facts.steps, wide.steps]; simp [s.func.block_of_le (Nat.le_refl _)]
      fresh := fun q mem => by
        rcases adds.fresh _ q mem with old | new
        · simp [s.func.block_of_le (Nat.le_refl _)] at old
        · exact new
      edges := fun p mem => by
        obtain ⟨k, here⟩ := mem_iff_getElem?.1 mem
        obtain ⟨a, passed⟩ := merging.passed here
        have same :
            ∀ {x m : Value}, Passes s.func.newBlock.2 (g.block s.func.blocks.size).params a x m →
            Passes s.func (func.block s.func.blocks.size).params a x m := fun passes => by
          rw [params]
          rcases passes with ⟨j, a', at', given, eq⟩ | eq
          · exact .inl ⟨j, a', at', given, by rw [← stands, ← stands]; exact eq⟩
          · exact .inr (by rw [← stands]; exact eq)
        refine ⟨a, facts.edges k p a here passed, ?_, fun x mem => ?_, fun i x m has at' => same ?_,
          fun x m has is => ?_⟩
        · rw [params]; exact merging.sizes a (mem_of_getElem? passed)
        · rcases merging.drawn k p a here passed x mem with own | ⟨v, has, is⟩
          · exact .inl own
          · exact .inr ⟨v, has, is.trans (stands v)⟩
        · have given := (merging.each i m at').2.2 k p a here passed
          simpa [Array.getD_eq_getD_getElem?, has] using given
        · obtain ⟨ty, gives⟩ := gives m is
          simpa [has] using same (gives.passes k p a here passed) }

theorem meet_ok (h : meet frame pending s = .ok ((), s')) :
    ∃ r, Met s s' frame.result pending r := by
  have ready := gathered.ready
  have fits : ∀ p ∈ pending, Fits s.func.newBlock.2 s.localTypes p.locals := fun p mem =>
    (gathered.each p mem).locals.mono (Nat.le_refl _) fun _ _ => rfl
  have start : Merging s.func.newBlock.2 s.localTypes s.func.blocks.size pending s.spare.func #[]
      (pending.map fun _ => #[]) :=
    { wide := ⟨[], .refl ready.sound _⟩
      count := by simp
      sizes := fun a mem => by
        obtain ⟨p, -, rfl⟩ := mem_map.1 mem
        simp [Builder.spare, s.func.block_of_le (Nat.le_refl _)]
      each := by simp
      drawn := fun k p a _ passed x mem => by
        rw [getElem?_map] at passed
        obtain ⟨-, -, rfl⟩ := Option.map_eq_some_iff.1 passed
        simp at mem }
  have all : s.localTypes.toList.drop (#[] : Array Value).size = s.localTypes.toList := rfl
  obtain ⟨merged, args, func, mergedLocals, merging, size⟩ :=
    mergeLocals_ok (s := s.spare) start ready gathered.nonempty fits all
  simp only [meet, bind_apply _ newBlock_apply, bind_apply _ get_apply] at h
  obtain ⟨⟨locals, args'⟩, s₁, first, rest⟩ := bind_ok h
  have same : (.ok ((locals, args'), s₁) : Except Error _) = _ := first.symm.trans mergedLocals
  cases same
  rcases Option.eq_none_or_eq_some frame.result with ty | ⟨ty', ty⟩
  · simp only [ty] at rest
    exact ⟨none, gathered.met merging size (by rw [ty]; rfl) (fun _ is => by cases is) rfl rest⟩
  · simp only [ty] at rest
    have yields : ∀ p ∈ pending, Yields s.func.newBlock.2 (some ty') p.result := fun p mem => by
      rw [← ty]
      exact (gathered.each p mem).result.mono (Nat.le_refl _) fun _ _ => rfl
    obtain ⟨v, args', func', mergedResult, merging', gives⟩ :=
      mergeResult_ok (s := { s with func := func }) merging ready gathered.nonempty yields
    have last := (bind_apply _ mergedResult).symm.trans rest
    exact ⟨some v,
      gathered.met merging' size (by rw [ty]; exact ⟨v, rfl, gives.inside, gives.typed⟩)
      (fun m is => ⟨ty', by cases is; exact gives⟩) rfl last⟩

end
end Wasmill.Ssa

import Wasmill.Proofs.Ssa.Bare
import Wasmill.Proofs.Ssa.Proper

/-! What compiling does to a function, whatever the body.

`Build.Keeps env x`: wherever `x` succeeds, control and frames stay where they are, the blocks of
the function go on, and the same happens wherever the code stands. `Build.Shifts env falls rises x s
Q` is the like for computations that drop and open frames or go to other blocks: from `s` they lead
to answers and states of which `Q` holds. -/
namespace Wasmill.Ssa
open Steps List Ssa.Function

/-! ### States -/

namespace Builder
variable {env : Env} {s t u : Builder} {l l' : List Nat} {falls rises : Nat}

/-- Whether frames are that of the function, the innermost first. -/
def spine (s : Builder) : List Bool := s.control.map fun frame => frame.kind = .function

/-- Control stays in its block, in which there may be more. -/
structure Steady (env : Env) (s t : Builder) : Prop where
  kept : s.func.BlocksOnto env s.srcloc t.func
  current : t.current = s.current
  srcloc : t.srcloc = s.srcloc
  spine : t.spine = s.spine

/-- The same operator is compiled, which dropped and opened frames. -/
structure Continues (env : Env) (falls rises : Nat) (s t : Builder) : Prop where
  spine : t.spine = replicate rises false ++ s.spine.drop falls
  srcloc : t.srcloc = s.srcloc
  home : t.func.srcloc = s.func.srcloc
  onto : ∀ b, (s.func.block b).Onto env s.srcloc (t.func.block b)

/-- All blocks are left but the current one and some that are still to be entered. -/
def Owes (s : Builder) (l : List Nat) : Prop :=
  ∀ b < s.func.blocks.size, (s.func.block b).leave = none → s.current = some b ∨ b ∈ l

/-- No other blocks are to be entered than before. -/
def Settles (s t : Builder) : Prop := ∀ l, s.Owes l → t.Owes l

theorem Steady.same (func : t.func = s.func) (current : t.current = s.current)
    (srcloc : t.srcloc = s.srcloc)
    (control : t.control = s.control) : s.Steady env t :=
  ⟨.of_blocks (by rw [func]) (by rw [func]), current, srcloc, congrArg (map _) control⟩

theorem Steady.refl (env : Env) (s : Builder) : s.Steady env s := .same rfl rfl rfl rfl

theorem Steady.trans (first : s.Steady env t) (second : t.Steady env u) : s.Steady env u :=
  ⟨first.kept.trans (first.srcloc ▸ second.kept), second.current.trans first.current,
    second.srcloc.trans first.srcloc,
    second.spine.trans first.spine⟩

theorem Steady.continues (steady : s.Steady env t) : s.Continues env 0 0 t :=
  ⟨steady.spine, steady.srcloc, steady.kept.srcloc, steady.kept.onto⟩

theorem Steady.settles (steady : s.Steady env t) : s.Settles t := by
  intro l owes b lt unleft
  rw [steady.current]
  exact owes b (steady.kept.size ▸ lt) ((steady.kept.onto b).left unleft)

theorem Settles.refl (s : Builder) : s.Settles s := fun _ owes => owes

theorem Settles.trans (first : s.Settles t) (second : t.Settles u) : s.Settles u :=
  fun l owes => second l (first l owes)

theorem Continues.trans (first : s.Continues env 0 0 t) (second : t.Continues env falls rises u) :
    s.Continues env falls rises u where
  spine := second.spine.trans (by rw [show t.spine = s.spine from first.spine])
  srcloc := second.srcloc.trans first.srcloc
  home := second.home.trans first.home
  onto b := (first.onto b).trans (first.srcloc ▸ second.onto b)

theorem spine_length (s : Builder) : s.spine.length = s.control.length := length_map _

theorem Continues.depth (continues : s.Continues env falls rises t)
    (enough : falls ≤ s.control.length) :
    t.control.length = s.control.length + rises - falls := by
  rw [← t.spine_length, continues.spine, length_append, length_replicate, length_drop,
    s.spine_length]
  omega

theorem Owes.mono (owes : s.Owes l) (sub : l ⊆ l') : s.Owes l' :=
  fun b lt unleft => (owes b lt unleft).imp_right fun mem => sub mem

end Builder

namespace Build
variable {α β : Type} {env : Env} {s : Builder} {falls rises depth b : Nat} {x : Build α}

/-! ### Computations -/

structure Keeps (env : Env) (x : Build α) : Prop where
  blind : Blind x
  steady : ∀ s a t, x s = .ok (a, t) → s.Steady env t

theorem keeps_pure (a : α) : Keeps env (pure a) :=
  ⟨fun _ => rfl, fun s _ t is => by cases is; exact .refl env s⟩

theorem keeps_throw (e : Error) : Keeps env (throw e : Build α) :=
  ⟨fun _ => rfl, fun _ _ _ is => by cases is⟩

theorem keeps_invalid (fault : Fault) : Keeps env (invalid fault : Build α) :=
  ⟨fun _ => rfl, fun _ _ _ is => by cases is⟩

theorem keeps_bind {f : α → Build β} (first : Keeps env x) (rest : ∀ a, Keeps env (f a)) :
    Keeps env (x >>= f) where
  blind := blind_bind first.blind fun a => (rest a).blind
  steady s b u is := by
    obtain ⟨a, t, one, two⟩ := bind_ok is
    exact (first.steady s a t one).trans ((rest a).steady t b u two)

/-- A computation that first looks at the state, though not at places. -/
theorem keeps_get {f : Builder → Build α} (same : ∀ s : Builder, f s.bare = f s)
    (rest : ∀ s, Keeps env (f s)) : Keeps env (get >>= f) where
  blind := blind_get same fun s => (rest s).blind
  steady s a t is := (rest s).steady s a t is

theorem keeps_lift (r : Except Error α) : Keeps env (liftM r) := by
  cases r with
  | error e => exact keeps_throw e
  | ok a => exact keeps_pure a

theorem keeps_map {g : α → β} (h : Keeps env x) : Keeps env (g <$> x) :=
  show Keeps env (x >>= fun a => pure (g a)) from keeps_bind h fun _ => keeps_pure _

theorem keeps_modify {g : Builder → Builder} (same : ∀ s : Builder, g s.bare = (g s).bare)
    (h : ∀ s : Builder, s.Steady env (g s)) : Keeps env (modify g : Build PUnit) :=
  ⟨blind_modify same, fun s _ t is => by cases is; exact h s⟩

def Shifts (env : Env) (falls rises : Nat) (x : Build α) (s : Builder)
    (Q : α → Builder → Prop) : Prop :=
  ∀ a t, x s = .ok (a, t) → s.Continues env falls rises t ∧ Likewise x s a t ∧ Q a t

section
variable {P Q : α → Builder → Prop}

theorem Blind.shifts (blind : Blind x)
    (h : ∀ a t, x s = .ok (a, t) → s.Continues env falls rises t ∧ Q a t) :
    Shifts env falls rises x s Q := by
  intro a t is
  obtain ⟨continues, holds⟩ := h a t is
  exact ⟨continues, blind.likewise is, holds⟩

theorem shifts_pure {a : α} (h : Q a s) : Shifts env 0 0 (pure a) s Q := by
  intro b t is
  cases is
  exact ⟨(Builder.Steady.refl env s).continues, fun s' same => ⟨s', rfl, same⟩, h⟩

theorem shifts_throw (e : Error) : Shifts env falls rises (throw e) s Q := fun _ _ is => by cases is

theorem shifts_invalid (fault : Fault) : Shifts env falls rises (invalid fault) s Q :=
  fun _ _ is => by cases is

theorem Keeps.shifts (h : Keeps env x) : Shifts env 0 0 x s fun _ => s.Steady env :=
  h.blind.shifts fun a t is => ⟨(h.steady s a t is).continues, h.steady s a t is⟩

theorem shifts_modify {g : Builder → Builder} (same : ∀ s : Builder, g s.bare = (g s).bare)
    (steady : s.Steady env (g s)) :
    Shifts env 0 0 (modify g : Build PUnit) s fun _ => s.Steady env :=
  (blind_modify same).shifts fun _ t is => by cases is; exact ⟨steady.continues, steady⟩

theorem Shifts.imp (h : Shifts env falls rises x s P) (weaker : ∀ a t, P a t → Q a t) :
    Shifts env falls rises x s Q := by
  intro a t is
  obtain ⟨continues, like, holds⟩ := h a t is
  exact ⟨continues, like, weaker a t holds⟩

/-- Computations that drop and open no frames. -/
theorem Shifts.spine (h : Shifts env 0 0 x s Q) : Shifts env 0 0 x s fun a t =>
    t.spine = s.spine ∧ Q a t := by
  intro a t is
  obtain ⟨continues, like, holds⟩ := h a t is
  exact ⟨continues, like, continues.spine, holds⟩

theorem shifts_bind {f : α → Build β} {Q : β → Builder → Prop} (first : Shifts env 0 0 x s P)
    (rest : ∀ a t, P a t → Shifts env falls rises (f a) t Q) :
    Shifts env falls rises (x >>= f) s Q := by
  intro b u is
  obtain ⟨a, t, one, two⟩ := bind_ok is
  obtain ⟨continues, like, holds⟩ := first a t one
  obtain ⟨continues', like', holds'⟩ := rest a t holds b u two
  refine ⟨continues.trans continues', fun s' same => ?_, holds'⟩
  obtain ⟨t', one', same'⟩ := like s' same
  obtain ⟨u', two', same''⟩ := like' t' same'
  exact ⟨u', (bind_apply _ one').trans two', same''⟩

theorem Keeps.followed {f : α → Build β} {Q : β → Builder → Prop} (first : Keeps env x)
    (rest : ∀ a t, s.Steady env t → Shifts env falls rises (f a) t Q) :
    Shifts env falls rises (x >>= f) s Q :=
  shifts_bind first.shifts rest

theorem shifts_get {f : Builder → Build α} (same : ∀ s : Builder, f s.bare = f s)
    (rest : Shifts env falls rises (f s) s Q) :
    Shifts env falls rises (get >>= f) s Q := by
  intro a t is
  obtain ⟨continues, like, holds⟩ := rest a t is
  refine ⟨continues, fun s' alike => ?_, holds⟩
  obtain ⟨t', run, last⟩ := like s' alike
  refine ⟨t', ?_, last⟩
  rw [bind_apply _ get_apply, ← same s', alike, same s]
  exact run

theorem shifts_isDead {f : Bool → Build α}
    (dead : s.current = none → Shifts env falls rises (f true) s Q)
    (live : Shifts env falls rises (f false) s Q) : Shifts env falls rises (isDead >>= f) s Q := by
  refine shifts_get (fun _ => rfl) ?_
  cases is : s.current with
  | none => exact dead is
  | some b => exact live

end

/-! ### Operands -/

theorem keeps_push (v : Value) : Keeps env (push v) :=
  keeps_modify (fun _ => rfl) fun _ => .same rfl rfl rfl rfl

theorem keeps_pushAll (v : Option Value) : Keeps env (pushAll v) := by
  cases v with
  | none => exact keeps_pure _
  | some v => exact keeps_push v

theorem keeps_pop : Keeps env pop := by
  refine ⟨blind_pop, fun s v t is => ?_⟩
  obtain ⟨rest, stack, rfl⟩ := pop_ok is
  exact .same rfl rfl rfl rfl

theorem keeps_peek : Keeps env peek := by
  refine ⟨blind_peek, fun s v t is => ?_⟩
  obtain ⟨-, rfl⟩ := peek_ok is
  exact .refl env t

theorem keeps_popMany (n : Nat) : Keeps env (popMany n) := by
  refine ⟨blind_popMany n, fun s vs t is => ?_⟩
  obtain ⟨-, rfl, rfl⟩ := popMany_ok is
  exact .same rfl rfl rfl rfl

theorem keeps_popResult (ty : Option ValType) : Keeps env (popResult ty) := by
  cases ty with
  | none => exact keeps_pure _
  | some ty => exact keeps_map keeps_pop

theorem keeps_peekResult (ty : Option ValType) : Keeps env (peekResult ty) := by
  cases ty with
  | none => exact keeps_pure _
  | some ty => exact keeps_map keeps_peek

theorem keeps_truncate (height : Nat) : Keeps env (truncate height) :=
  keeps_modify (fun _ => rfl) fun _ => .same rfl rfl rfl rfl

theorem keeps_setLocals (locals : Array Value) :
    Keeps env (modify fun s => { s with locals } : Build PUnit) :=
  keeps_modify (fun _ => rfl) fun _ => .same rfl rfl rfl rfl

/-! ### The function -/

theorem keeps_modifyFunc {g : Function → Function}
    (h : ∀ place f, Function.BlocksOnto env place f (g f))
    (same : ∀ f : Function, g f.bare = (g f).bare) : Keeps env (modifyFunc g) :=
  keeps_modify (fun s => congrArg (Builder.mk · _ _ _ _ _ _) (same s.func)) fun s =>
    ⟨h s.srcloc s.func, rfl, rfl, rfl⟩

theorem keeps_setEdge (r : EdgeRef) (dest : Edge) : Keeps env (modifyFunc (·.setEdge r dest)) :=
  keeps_modifyFunc (fun _ _ => onto_modifyEdge r _) fun _ => bare_modifyEdge

/-- The function gets something new. -/
theorem keeps_new {g : Function → α × Function} (same : ∀ f, g f.bare = (g f).map id Function.bare)
    (h : ∀ place f, Function.BlocksOnto env place f (g f).2) : Keeps env (do
      let s ← get
      set { s with func := (g s.func).2 }
      return (g s.func).1) := by
  refine ⟨blind_new same, fun s a t is => ?_⟩
  cases is
  exact ⟨h s.srcloc s.func, rfl, rfl, rfl⟩

theorem keeps_append (inst : Inst) (proper : inst.Proper env) (result : Option Value) :
    Keeps env (append inst result) := by
  refine ⟨blind_append inst result, fun s _ t is => ?_⟩
  cases is
  dsimp only
  split
  · next b _ =>
    refine ⟨onto_modifyBlock b fun block => { Block.Onto.refl env s.srcloc block with fresh := ?_ },
      rfl, rfl, rfl⟩
    intro i step is
    rw [Array.getElem?_push] at is
    split at is
    · cases is
      exact .inr ⟨proper, rfl⟩
    · exact .inl is
  · exact .refl env s

theorem keeps_value (inst : Inst) (proper : inst.Proper env) (ty : ValType) :
    Keeps env (value inst ty) := by
  show Keeps env ((do
    let s ← get
    set { s with func := (s.func.newValue ty).2 }
    return (s.func.newValue ty).1 : Build Value) >>= fun v =>
      append inst (some v) >>= fun _ => pure v)
  exact keeps_bind
    (keeps_new (g := (·.newValue ty)) (fun _ => rfl) fun _ _ => .of_blocks rfl rfl) fun _ =>
    keeps_bind (keeps_append _ proper _) fun _ => keeps_pure _

theorem keeps_pushValue (inst : Inst) (proper : inst.Proper env) (ty : ValType) :
    Keeps env (pushValue inst ty) :=
  keeps_bind (keeps_value _ proper ty) keeps_push

theorem keeps_emit (inst : Inst) (proper : inst.Proper env) (ty : Option ValType) :
    Keeps env (emit inst ty) := by
  cases ty with
  | none => exact keeps_append _ proper none
  | some ty => exact keeps_pushValue _ proper ty

theorem keeps_interruptCheck (mode : InterruptMode) : Keeps env (interruptCheck mode) := by
  cases mode with
  | polling => exact keeps_append .interruptCheck trivial none
  | signal => exact keeps_pure _

theorem keeps_newParam (b : Nat) (ty : ValType) : Keeps env (newParam b ty) :=
  keeps_new (g := (·.newParam b ty)) (fun _ => bare_newParam) fun _ _ => onto_newParam b ty

theorem keeps_newParams (b : Nat) (types : List ValType) : Keeps env (newParams b types) := by
  unfold newParams
  induction types with
  | nil => exact keeps_pure _
  | cons ty types ih =>
    rw [mapM_cons]
    exact keeps_bind (keeps_newParam b ty) fun _ => keeps_bind ih fun _ => keeps_pure _

theorem steady_modify {g : Frame → Frame}
    (same : ∀ frame, s.control[depth]? = some frame →
      ((g frame).kind = .function ↔ frame.kind = .function)) :
    s.Steady env { s with control := s.control.modify depth g } := by
  refine ⟨.of_blocks rfl rfl, rfl, rfl, ext_getElem? fun i => ?_⟩
  show ((s.control.modify depth g).map _)[i]? = (s.control.map _)[i]?
  rw [getElem?_map, getElem?_map, getElem?_modify]
  split
  · next here =>
    subst here
    cases is : s.control[depth]? with
    | none => rfl
    | some frame => simp [same frame is]
  · simp

theorem keeps_modifyFrame {g : Frame → Frame}
    (same : ∀ frame, (g frame).kind = .function ↔ frame.kind = .function) :
    Keeps env (modifyFrame depth g) :=
  keeps_modify (fun _ => rfl) fun _ => steady_modify fun frame _ => same frame

theorem keeps_addPending (p : Pending) : Keeps env (addPending depth p) :=
  keeps_modifyFrame fun _ => .rfl

theorem shifts_frameAt (depth : Nat) : Shifts env 0 0 (frameAt depth) s fun frame t =>
    t = s ∧ s.control[depth]? = some frame := by
  refine shifts_get (fun _ => rfl) ?_
  split
  · next frame there => exact shifts_pure ⟨rfl, there⟩
  · exact shifts_invalid _

/-! ### Blocks -/

theorem shifts_leave {exit : Exit} (other : exit ≠ .trap .stackOverflow) :
    Shifts env 0 0 (leave exit) s fun _ t => t.current = none ∧ s.Settles t := by
  refine (blind_leave exit).shifts fun b t is => ?_
  simp only [leave, bind_apply _ get_apply] at is
  cases live : s.current with
  | none =>
    simp only [live] at is
    cases is
    exact ⟨(Builder.Steady.refl env s).continues, live, .refl s⟩
  | some c =>
    simp only [live, bind_apply _ set_apply] at is
    cases is
    have kept : Function.BlocksOnto env s.srcloc s.func
        (s.func.modifyBlock b fun block => { block with leave := some ⟨exit, s.srcloc⟩ }) := by
      refine onto_modifyBlock b fun block => ⟨fun _ _ is => .inl is, fun l is => .inr ?_, nofun⟩
      cases is
      exact ⟨other, rfl⟩
    refine ⟨⟨rfl, rfl, kept.srcloc, kept.onto⟩, rfl, fun l owes d lt unleft => .inr ?_⟩
    have lt : d < s.func.blocks.size := kept.size ▸ lt
    have unleft : ((s.func.modifyBlock b fun block =>
      { block with leave := some ⟨exit, s.srcloc⟩ }).block d).leave = none := unleft
    refine (owes d lt ((kept.onto d).left unleft)).resolve_left fun here => ?_
    obtain rfl : b = d := Option.some.inj (live.symm.trans here)
    rw [block_modifyBlock, if_pos ⟨rfl, lt⟩] at unleft
    cases unleft

theorem shifts_newBlock : Shifts env 0 0 newBlock s fun b t =>
    t.current = s.current ∧ ∀ l, s.Owes l → t.Owes (b :: l) := by
  refine (blind_new (g := Function.newBlock) fun _ => bare_newBlock).shifts fun b t is => ?_
  cases is
  refine ⟨⟨rfl, rfl, rfl, fun c => ?_⟩, rfl, fun l owes c lt unleft => ?_⟩
  · show (s.func.block c).Onto env s.srcloc (s.func.newBlock.2.block c)
    rw [newBlock_block]
    exact .refl ..
  · have lt : c < s.func.newBlock.2.blocks.size := lt
    have unleft : (s.func.newBlock.2.block c).leave = none := unleft
    rw [newBlock_size] at lt
    rw [newBlock_block] at unleft
    rcases Nat.lt_succ_iff_lt_or_eq.1 lt with lt | rfl
    · exact (owes c lt unleft).imp_right (mem_cons_of_mem _)
    · exact .inr mem_cons_self

/-- Entering a block, while no other one is open. -/
theorem shifts_enter (dead : s.current = none) :
    Shifts env 0 0 (enter b) s fun _ t => ∀ l, s.Owes (b :: l) → t.Owes l := by
  refine (blind_modify (g := ({ · with current := some b })) fun _ => rfl).shifts fun _ t is => ?_
  cases is
  refine ⟨⟨rfl, rfl, rfl, fun _ => .refl ..⟩, fun l owes c lt unleft => ?_⟩
  rcases owes c lt unleft with here | mem
  · cases dead.symm.trans here
  · exact (mem_cons.1 mem).imp (congrArg some ·.symm) id

theorem shifts_openFrame {kind : FrameKind} {result : Option ValType} (inner : kind ≠ .function) :
    Shifts env 0 1 (openFrame kind result) s fun _ => s.Settles := by
  refine shifts_get (fun _ => rfl)
    ((blind_modify (g := fun t =>
      { t with control := ⟨kind, result, s.stack.length, #[]⟩ :: t.control })
    fun _ => rfl).shifts fun _ t is => ?_)
  cases is
  exact ⟨⟨congrArg (· :: s.spine) (decide_eq_false inner), rfl, rfl, fun _ => .refl ..⟩, .refl s⟩

/-! ### Branches -/

theorem shifts_ret : Shifts env 0 0 ret s fun _ t => t.current = none ∧ s.Settles t := by
  refine shifts_get (fun _ => rfl) ((keeps_popResult _).followed fun v t steady => ?_)
  exact shifts_bind (shifts_leave (by simp)) fun _ u ⟨dead, settles⟩ =>
    shifts_pure ⟨dead, steady.settles.trans settles⟩

/-- Edges that leave the function share a block, which is still to be filled. -/
theorem shifts_edgeTo (depth : Nat) (exitBlock : Option Nat) :
    Shifts env 0 0 (edgeTo depth exitBlock) s fun r t =>
    (∀ l, s.Owes (exitBlock.toList ++ l) → t.Owes (r.2.2.toList ++ l)) ∧
      ∀ frame, s.control[depth]? = some frame → frame.kind ≠ .function → r.2.2 = exitBlock := by
  refine shifts_bind (shifts_frameAt depth) ?_
  rintro frame t ⟨rfl, there⟩
  cases is : frame.kind with
  | function =>
    have outer : ∀ fr, t.control[depth]? = some fr → fr.kind = .function := by
      intro fr same
      cases there.symm.trans same
      exact is
    cases exitBlock with
    | none =>
      refine shifts_bind shifts_newBlock fun b u ⟨_, fresh⟩ =>
        shifts_pure ⟨fresh, fun fr same inner => ?_⟩
      exact absurd (outer fr same) inner
    | some b =>
      refine shifts_bind (shifts_pure (Q := fun c u => c = b ∧ u = t) ⟨rfl, rfl⟩) ?_
      rintro c u ⟨rfl, rfl⟩
      exact shifts_pure ⟨fun _ owes => owes, fun _ _ _ => rfl⟩
  | loop header =>
    cases header with
    | none => exact shifts_throw _
    | some header =>
      exact shifts_get (fun _ => rfl) (shifts_pure ⟨fun _ owes => owes, fun _ _ _ => rfl⟩)
  | block | ifBlock =>
    exact (keeps_peekResult _).followed fun v u steady =>
      shifts_pure ⟨fun _ => steady.settles _, fun _ _ _ => rfl⟩

theorem shifts_tableEdges (depths : List Nat) (exitBlock : Option Nat) :
    Shifts env 0 0 (tableEdges depths exitBlock) s fun r t =>
      ∀ l, s.Owes (exitBlock.toList ++ l) → t.Owes (r.2.toList ++ l) := by
  induction depths generalizing s exitBlock with
  | nil => exact shifts_pure fun _ owes => owes
  | cons depth depths ih =>
    refine shifts_bind (shifts_edgeTo depth exitBlock) ?_
    rintro ⟨dest, target, exitBlock⟩ t ⟨first, -⟩
    exact shifts_bind (ih exitBlock) fun _ u rest => shifts_pure fun l owes => rest l (first l owes)

theorem shifts_fillExit (exitBlock : Option Nat) (dead : s.current = none) :
    Shifts env 0 0 (fillExit exitBlock) s fun _ t =>
    t.current = none ∧ ∀ l, s.Owes (exitBlock.toList ++ l) → t.Owes l := by
  cases exitBlock with
  | none => exact shifts_pure ⟨dead, fun _ owes => owes⟩
  | some b =>
    refine shifts_get (fun _ => rfl) ((keeps_peekResult _).followed fun v t steady => ?_)
    refine shifts_bind (shifts_enter (steady.current.trans dead)) fun _ u entered => ?_
    refine shifts_bind (shifts_leave (by simp)) fun _ w ⟨dead, settles⟩ =>
      shifts_pure ⟨dead, fun l owes => ?_⟩
    exact settles l (entered l (steady.settles _ owes))

theorem keeps_record (source : EdgeRef) (target : Target) : Keeps env (record source target) := by
  cases target with
  | ret => exact keeps_pure _
  | header depth =>
    refine keeps_modifyFrame fun frame => ?_
    split
    · next h is => simp [is]
    · exact .rfl
  | waiting depth result => exact keeps_get (fun _ => rfl) fun _ => keeps_addPending _

theorem keeps_recordAll (b index : Nat) (targets : List Target) :
    Keeps env (recordAll b index targets) := by
  induction targets generalizing index with
  | nil => exact keeps_pure _
  | cons target targets ih => exact keeps_bind (keeps_record _ _) fun _ => ih _

theorem shifts_branch (depth : Nat) : Shifts env 0 0 (branch depth) s fun _ => s.Settles := by
  refine shifts_bind (shifts_frameAt depth) ?_
  rintro frame t ⟨rfl, there⟩
  split
  · exact (shifts_ret).imp fun _ _ => And.right
  · next inner =>
    refine shifts_bind (shifts_edgeTo depth none) ?_
    rintro ⟨dest, target, exitBlock⟩ u ⟨first, same⟩
    obtain rfl := same frame there inner
    refine shifts_bind (shifts_leave (by simp)) fun b v ⟨_, settles⟩ =>
      (keeps_record _ _).shifts.imp fun _ w steady => ?_
    exact .trans first (settles.trans steady.settles)

theorem shifts_branchIf (depth : Nat) : Shifts env 0 0 (branchIf depth) s fun _ => s.Settles := by
  refine (keeps_pop).followed fun cond t steady => shifts_bind (shifts_edgeTo depth none) ?_
  rintro ⟨dest, target, exitBlock⟩ u ⟨first, -⟩
  refine shifts_bind shifts_newBlock fun next v ⟨_, fresh⟩ => ?_
  refine shifts_bind (shifts_leave (by simp)) fun b w ⟨dead, settles⟩ => ?_
  refine (keeps_record _ _).followed fun _ x steady' => ?_
  refine shifts_bind (shifts_fillExit exitBlock (steady'.current.trans dead))
    fun _ y ⟨dead', filled⟩ => ?_
  refine (shifts_enter dead').imp fun _ z entered l owes => entered l (filled _ ?_)
  have owes := steady'.settles _ (settles _ (fresh _ (first l (steady.settles l owes))))
  exact owes.mono perm_middle.symm.subset

theorem shifts_branchTable (depths : Array Nat) (default : Nat) :
    Shifts env 0 0 (branchTable depths default) s fun _ => s.Settles := by
  refine (keeps_pop).followed fun index t steady =>
    shifts_bind (shifts_tableEdges depths.toList none) ?_
  rintro ⟨edges, exitBlock⟩ u first
  refine shifts_bind (shifts_edgeTo default exitBlock) ?_
  rintro ⟨dest, target, exitBlock⟩ v ⟨second, -⟩
  refine shifts_bind (shifts_leave (by simp)) fun b w ⟨dead, settles⟩ =>
    (keeps_recordAll _ _ _).followed fun _ x steady' => ?_
  refine (shifts_fillExit exitBlock (steady'.current.trans dead)).imp fun _ y ⟨_, filled⟩ l owes =>
    filled l ?_
  exact steady'.settles _ (settles _ (second l (first l (steady.settles l owes))))

/-! ### Frames -/

theorem shifts_enterLoop (mode : InterruptMode) (result : Option ValType) :
    Shifts env 0 1 (enterLoop mode result) s fun _ => s.Settles := by
  refine shifts_bind shifts_newBlock fun header t ⟨_, fresh⟩ => ?_
  refine shifts_get (fun _ => rfl) ((keeps_newParams header _).followed fun params u steady => ?_)
  refine shifts_get (fun _ => rfl) ?_
  refine shifts_bind (shifts_leave (by simp)) fun b v ⟨dead, settles⟩ =>
    shifts_bind (shifts_enter dead) fun _ w entered => ?_
  have settled : s.Settles w :=
    fun l owes => entered l (settles _ (steady.settles _ (fresh l owes)))
  refine (keeps_setLocals _).followed fun _ x steady =>
    (keeps_interruptCheck mode).followed fun _ y steady' => ?_
  exact (shifts_openFrame (by simp)).imp fun _ z opened =>
    ((settled.trans steady.settles).trans steady'.settles).trans opened

theorem shifts_enterIf (result : Option ValType) : Shifts env 0 1 (enterIf result) s fun _ =>
    s.Settles := by
  refine (keeps_pop).followed fun cond t steady =>
    shifts_bind shifts_newBlock fun arm u ⟨_, fresh⟩ => ?_
  refine shifts_bind (shifts_leave (by simp)) fun b v ⟨dead, settles⟩ =>
    shifts_bind (shifts_enter dead) fun _ w entered => ?_
  have settled : s.Settles w :=
    fun l owes => entered l (settles _ (fresh l (steady.settles l owes)))
  exact shifts_get (fun _ => rfl)
    ((shifts_openFrame (by simp)).imp fun _ x opened => settled.trans opened)

theorem shifts_leaveFrame (result : Option ValType) :
    Shifts env 0 0 (leaveFrame result) s fun _ t => t.current = none ∧ s.Settles t := by
  refine shifts_isDead (fun dead => shifts_pure ⟨dead, .refl s⟩)
    ((keeps_popResult result).followed fun v t steady => ?_)
  exact shifts_bind (shifts_leave (by simp)) fun b u ⟨dead, settles⟩ =>
    shifts_get (fun _ => rfl) (shifts_pure ⟨dead, steady.settles.trans settles⟩)

/-- From the first arm to the second: the block before is left, and the frame is that of an `if`. -/
theorem shifts_switchArm (frame : Frame) (dead : s.current = none)
    (same : s.spine.head? = some (decide (frame.kind = .function))) :
    Shifts env 0 0 (do
      truncate frame.base
      match frame.kind with
      | .ifBlock (some edge) entryLocals =>
        modifyFrame 0 fun frame => { frame with kind := .ifBlock none entryLocals }
        let arm ← newBlock
        modifyFunc (·.setEdge edge ⟨arm, #[]⟩)
        enter arm
        modify fun s => { s with locals := entryLocals }
      | .ifBlock none _ => return
      | _ => broken .elseOutsideIf) s fun _ => s.Settles := by
  refine (keeps_truncate _).followed fun _ t steady => ?_
  rw [← steady.spine] at same
  split
  · next edge locals is =>
    have inner : ∀ fr, t.control[0]? = some fr → fr.kind ≠ .function := by
      intro fr there
      rw [is, Builder.spine, head?_map, head?_eq_getElem?, there] at same
      simpa using same
    refine shifts_bind (shifts_modify (fun _ => rfl) (steady_modify fun fr there =>
      iff_of_false (by simp) (inner fr there))) fun _ u steady' => ?_
    refine shifts_bind shifts_newBlock fun arm v ⟨stays, fresh⟩ =>
      (keeps_setEdge _ _).followed fun _ w steady'' => ?_
    have dead : w.current = none := by rw [steady''.current, stays, steady'.current,
      steady.current, dead]
    refine shifts_bind (shifts_enter dead) fun _ x entered =>
      (keeps_setLocals _).shifts.imp fun _ y last l owes => ?_
    exact last.settles l
      (entered l (steady''.settles _ (fresh l (steady'.settles l (steady.settles l owes)))))
  · exact shifts_pure steady.settles
  · exact shifts_throw _

theorem shifts_elseArm : Shifts env 0 0 elseArm s fun _ => s.Settles := by
  refine shifts_get (fun _ => rfl) ?_
  split
  · exact shifts_invalid _
  · next frame rest control =>
    refine shifts_bind (shifts_leaveFrame frame.result).spine fun p t ⟨spine, dead, settles⟩ => ?_
    have same : t.spine.head? = some (decide (frame.kind = .function)) := by
      rw [spine, Builder.spine, control]; rfl
    cases p with
    | none => exact (shifts_switchArm frame dead same).imp fun _ u => settles.trans
    | some p =>
      refine (keeps_addPending p).followed fun _ u steady => ?_
      refine (shifts_switchArm frame (steady.current.trans dead) (steady.spine ▸ same)).imp
        fun _ v last => ?_
      exact (settles.trans steady.settles).trans last

/-! ### Where edges meet -/

theorem keeps_mergeLocal (join : Nat) (pending : List Pending) (index : Nat) (ty : ValType) :
    Keeps env (mergeLocal join pending index ty) := by
  refine keeps_get (fun s => by simp only [Builder.bare, bare_resolve]) fun s => ?_
  dsimp only
  split
  · split
    · exact keeps_pure _
    · exact keeps_bind (keeps_newParam join ty) fun _ => keeps_pure _
  · exact keeps_pure _

theorem keeps_mergeLocals (join : Nat) (pending : List Pending) (index : Nat) (types : List ValType)
    (merged : Array Value)
    (args : List (Array Value)) : Keeps env (mergeLocals join pending index types merged args) := by
  induction types generalizing index merged args with
  | nil => exact keeps_pure _
  | cons ty types ih => exact keeps_bind (keeps_mergeLocal join pending index ty) fun _ => ih _ _ _

theorem keeps_mergeResult (join : Nat) (pending : List Pending) (ty : ValType)
    (args : List (Array Value)) :
    Keeps env (mergeResult join pending ty args) := by
  refine keeps_get (fun s => by simp only [Builder.bare, bare_resolve]; rfl) fun s => ?_
  dsimp only
  split
  · exact keeps_pure _
  · split
    · exact keeps_pure _
    · split
      · exact keeps_pure _
      · exact keeps_bind (keeps_newParam join ty) fun _ => keeps_pure _

theorem keeps_bindEdges (join : Nat) (pending : List Pending) (args : List (Array Value)) :
    Keeps env (bindEdges join pending args) := by
  induction pending generalizing args with
  | nil => exact keeps_pure _
  | cons p pending ih =>
    cases args with
    | nil => exact keeps_pure _
    | cons a args => exact keeps_bind (keeps_setEdge _ _) fun _ => ih args

theorem shifts_meet (frame : Frame) (pending : List Pending) (dead : s.current = none) :
    Shifts env 0 0 (meet frame pending) s fun _ => s.Settles := by
  refine shifts_bind shifts_newBlock fun join t ⟨stays, fresh⟩ => shifts_get (fun _ => rfl) ?_
  refine (keeps_mergeLocals join pending 0 _ _ _).followed fun ⟨locals, args⟩ u steady => ?_
  have ending (value : Option Value) (args : List (Array Value)) {v : Builder}
      (steady' : u.Steady env v) : Shifts env 0 0 (do
      bindEdges join pending args
      enter join
      modify fun s => { s with locals }
      pushAll value) v fun _ => s.Settles := by
    refine (keeps_bindEdges join pending args).followed fun _ w steady'' => ?_
    have dead : w.current = none := by rw [steady''.current, steady'.current, steady.current,
      stays, dead]
    refine shifts_bind (shifts_enter dead) fun _ x entered => ?_
    refine (keeps_bind (keeps_setLocals locals) fun _ => keeps_pushAll value).shifts.imp
      fun _ y last l owes => ?_
    exact last.settles l
      (entered l (steady''.settles _ (steady'.settles _ (steady.settles _ (fresh l owes)))))
  cases frame.result with
  | none => exact (keeps_pure _).followed fun _ v steady' => ending _ _ steady'
  | some ty =>
    exact (keeps_mergeResult join pending ty args).followed fun _ v steady' => ending _ _ steady'

theorem keeps_straightEnd (frame : Frame) : Keeps env (do
    let value ← if ← isDead then pure none else popResult frame.result
    truncate frame.base
    pushAll value) := by
  have ending (v : Option Value) : Keeps env (do
      truncate frame.base
      pushAll v) := keeps_bind (keeps_truncate _) fun _ => keeps_pushAll v
  refine keeps_bind (keeps_get (fun _ => rfl) fun _ => keeps_pure _) fun dead => ?_
  cases dead with
  | true => exact ending none
  | false => exact keeps_bind (keeps_popResult _) ending

theorem shifts_endBlock (frame : Frame) : Shifts env 0 0 (endBlock frame) s fun _ => s.Settles := by
  have run (pending : Array Pending) : Shifts env 0 0 (do
      if pending.isEmpty then
        let value ← if ← isDead then pure none else popResult frame.result
        truncate frame.base
        pushAll value
      else
        let last ← leaveFrame frame.result
        truncate frame.base
        meet frame (pending.toList ++ last.toList)) s fun _ => s.Settles := by
    split
    · exact (keeps_straightEnd frame).shifts.imp fun _ _ => Builder.Steady.settles
    · refine shifts_bind (shifts_leaveFrame frame.result) fun last t ⟨dead, settles⟩ => ?_
      refine (keeps_truncate _).followed fun _ u steady => ?_
      refine (shifts_meet frame _ (steady.current.trans dead)).imp fun _ v met => ?_
      exact (settles.trans steady.settles).trans met
  exact run _

theorem keeps_endLoop (frame : Frame) (header : Option LoopHeader) :
    Keeps env (endLoop frame header) := by
  cases header with
  | none => exact keeps_straightEnd frame
  | some h =>
    exact keeps_bind (keeps_modifyFunc (fun _ _ => onto_pruneLoop _ _) fun _ => bare_pruneLoop)
      fun _ => keeps_straightEnd frame

theorem shifts_endFrame (frame : Frame) : Shifts env 0 0 (match frame.kind with
    | .function => do if ← isDead then pure () else ret
    | .loop header => endLoop frame header
    | .block | .ifBlock .. =>
      endBlock frame) s fun _ t => s.Settles t ∧ (frame.kind = .function → t.current = none) := by
  cases frame.kind with
  | function =>
    exact shifts_isDead (fun dead => shifts_pure ⟨.refl s, fun _ => dead⟩)
      ((shifts_ret).imp fun _ _ is => ⟨is.2, fun _ => is.1⟩)
  | loop header => exact (keeps_endLoop frame header).shifts.imp fun _ _ steady =>
    ⟨steady.settles, nofun⟩
  | block => exact (shifts_endBlock frame).imp fun _ _ settles => ⟨settles, nofun⟩
  | ifBlock => exact (shifts_endBlock frame).imp fun _ _ settles => ⟨settles, nofun⟩

/-- The innermost frame is dropped. Nothing follows the frame of the function. -/
theorem shifts_close : Shifts env 1 0 close s fun _ t =>
    s.Settles t ∧ (s.spine.head? = some true → t.current = none) := by
  intro a t is
  rw [close, bind_apply _ get_apply] at is
  cases control : s.control with
  | nil =>
    rw [control] at is
    cases is
  | cons frame rest =>
    rw [control] at is
    obtain ⟨continues, like, settles, last⟩ :=
      shifts_endFrame frame (s := { s with control := rest }) a t is
    have spine :
        s.spine = decide (frame.kind = .function) :: Builder.spine { s with control := rest } := by
      rw [Builder.spine, control]; rfl
    refine ⟨⟨?_, continues.srcloc, continues.home, continues.onto⟩, fun s' same => ?_, settles,
      fun top => last ?_⟩
    · rw [spine]
      exact continues.spine
    · obtain ⟨t', run, last⟩ := like { s' with control := rest }
        (congrArg (fun s : Builder => { s with control := rest }) same)
      have control' : s'.control = frame :: rest := (congrArg Builder.control same).trans control
      refine ⟨t', ?_, last⟩
      rw [close, bind_apply _ get_apply, control']
      exact run
    · rw [spine] at top
      simpa using top

end Build
end Wasmill.Ssa

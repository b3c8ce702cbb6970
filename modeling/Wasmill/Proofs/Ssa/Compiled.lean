import Wasmill.Proofs.Ssa.Keeping
import Wasmill.Proofs.Ssa.Sequence
import Wasmill.Proofs.Wasm.Lanes

/-! A function that was compiled is proper, and all its blocks are left, whatever its body. -/
namespace Wasmill.Ssa
open Steps Wasm List Ssa.Function Option
variable {env : Env} {b : Nat} {t s : Builder} {body : Body} {f : Function} {sig : Sig}
  {ops : List Placed}
  {runs : List (Nat × ValType)} {c : Cursor}

namespace Build
variable {env : Env} {s : Builder} {ty : ValType} {op : Operator}

/-! ### Operators -/

theorem keeps_memoryOffset (arg : MemArg) : Keeps env (memoryOffset env arg) := by
  unfold memoryOffset
  split
  · exact keeps_invalid _
  · split
    · exact keeps_throw _
    · exact keeps_pure _

theorem keeps_checkMemory (memory : Nat) : Keeps env (checkMemory env memory) := by
  unfold checkMemory
  split
  · exact keeps_throw _
  · split
    · exact keeps_invalid _
    · exact keeps_pure _

theorem keeps_checkLane (shape : LaneShape) (lane : Nat) : Keeps env (checkLane shape lane) := by
  unfold checkLane
  split
  · exact keeps_pure _
  · exact keeps_invalid _

theorem keeps_globalAt (index : Nat) : Keeps env (globalAt env index) := by
  unfold globalAt
  split
  · exact keeps_pure _
  · exact keeps_invalid _

theorem keeps_setLocal (index : Nat) (v : Value) : Keeps env (setLocal index v) := by
  refine ⟨blind_setLocal index v, fun s _ t is => ?_⟩
  rw [setLocal, bind_apply _ get_apply] at is
  split at is
  · cases is
    exact .same rfl rfl rfl rfl
  · cases is

theorem keeps_localGet (index : Nat) : Keeps env (live env (.localGet index)) := by
  refine keeps_get (fun _ => rfl) fun s => ?_
  split
  · exact keeps_push _
  · exact keeps_invalid _

/-- An instruction with one operand, which is popped. -/
theorem keeps_pushUnary (inst : Value → Inst) (proper : ∀ v, (inst v).Proper env) :
    Keeps env (do pushValue (inst (← pop)) ty) :=
  keeps_bind keeps_pop fun v => keeps_pushValue _ (proper v) ty

/-- An instruction with two operands, which are popped. -/
theorem keeps_pushBinary (inst : Value → Value → Inst) (proper : ∀ a b, (inst a b).Proper env) :
    Keeps env (do
    let b ← pop
    pushValue (inst (← pop) b) ty) :=
  keeps_bind keeps_pop fun b => keeps_bind keeps_pop fun a => keeps_pushValue _ (proper a b) ty

theorem keeps_select : Keeps env select :=
  keeps_bind keeps_pop fun c => keeps_bind keeps_pop fun b => keeps_bind keeps_pop fun a =>
    keeps_get (fun _ => rfl) fun _ => keeps_pushValue (.select c a b) trivial _

theorem keeps_call (callee : Nat) : Keeps env (call env callee) := by
  unfold call
  split
  · exact keeps_invalid _
  · next sig is =>
    obtain ⟨_, known, -⟩ := bind_eq_some_iff.1 is
    refine keeps_bind (keeps_popMany _) fun args => ?_
    split
    · next desc _ => exact keeps_emit (.callImport callee desc.record args) trivial _
    · exact keeps_emit (.call callee args) (Array.getElem?_eq_some_iff.1 known).1 _

theorem keeps_shuffle {ls : List Nat} (full : ls.length = 16) :
    Keeps env (live env (.shuffle ls)) := by
  unfold live
  dsimp only
  split
  · exact keeps_invalid _
  · exact keeps_pushBinary (fun a b => .shuffle a b ls) fun _ _ => full

theorem keeps_blockResult (ty : BlockType) : Keeps env (blockResult ty) := by
  cases ty with
  | empty => exact keeps_pure _
  | value ty => exact keeps_bind (keeps_lift _) fun _ => keeps_pure _
  | func _ => exact keeps_throw _

theorem shifts_trap {t : Trap} (other : t ≠ .stackOverflow) :
    Shifts env 0 0 (do let _ ← leave (.trap t)) s fun _ => s.Settles :=
  shifts_bind (shifts_leave (by simpa using other)) fun _ _ is => shifts_pure is.2

theorem shifts_callIndirect (ty table : Nat) : Shifts env 0 0 (callIndirect env ty table) s fun _ =>
    s.Settles := by
  unfold callIndirect
  split
  · exact shifts_invalid _
  · next sig is =>
    split
    · exact shifts_invalid _
    · next desc _ =>
      refine (keeps_pop).followed fun index t steady =>
        (keeps_popMany _).followed fun args u steady' => ?_
      split
      · exact (shifts_trap (by simp)).imp fun _ _ settles =>
          (steady.trans steady').settles.trans settles
      · have proper : Inst.Proper env (.callIndirect ty desc.handle (env.sigToken ty) index args) :=
          (Array.getElem?_eq_some_iff.1 is).1
        exact (keeps_emit _ proper _).shifts.imp fun _ _ last =>
          ((steady.trans steady').trans last).settles

/-- An operator that stays in its block. -/
def plain : Operator → Bool
  | .unreachable | .block _ | .loop _ | .ifBlock _ | .elseArm | .close | .br _ | .brIf _
  | .brTable _ _ | .ret
  | .callIndirect _ _ => false
  | _ => true

theorem keeps_live (lanes : op.Lanes) (is : plain op = true) : Keeps env (live env op) := by
  cases op with
  | nop => exact keeps_pure _
  | call callee => exact keeps_call callee
  | drop => exact keeps_bind keeps_pop fun _ => keeps_pure _
  | select | typedSelect => exact keeps_select
  | localGet index => exact keeps_localGet index
  | localSet index => exact keeps_bind keeps_pop (keeps_setLocal index)
  | localTee index => exact keeps_bind keeps_peek (keeps_setLocal index)
  | globalGet index =>
    exact keeps_bind (keeps_globalAt index) fun g =>
      keeps_pushValue (.globalGet g.ty.content g.place) trivial _
  | globalSet index =>
    exact keeps_bind (keeps_globalAt index) fun g => keeps_bind keeps_pop fun v =>
      keeps_append (.globalSet g.ty.content g.place v) trivial none
  | load kind arg =>
    exact keeps_bind (keeps_memoryOffset arg) fun offset =>
      keeps_pushUnary (fun v => .load kind v offset) fun _ => trivial
  | store kind arg =>
    exact keeps_bind (keeps_memoryOffset arg) fun offset => keeps_bind keeps_pop fun v =>
      keeps_bind keeps_pop fun a =>
      keeps_append (.store kind a v offset) trivial none
  | memorySize memory =>
    exact keeps_bind (keeps_checkMemory memory) fun _ => keeps_pushValue .memorySize trivial _
  | memoryGrow memory =>
    exact keeps_bind (keeps_checkMemory memory) fun _ => keeps_pushUnary .memoryGrow fun _ => trivial
  | const v => exact keeps_pushValue (.const v.toSlot) trivial _
  | unary op => exact keeps_pushUnary (.unary op) fun _ => trivial
  | binary op => exact keeps_pushBinary (.binary op) fun _ _ => trivial
  | convert op => exact keeps_pushUnary (.convert op) fun _ => trivial
  | splat shape => exact keeps_pushUnary (.splat shape) fun _ => trivial
  | extractLane shape signed lane =>
    exact keeps_bind (keeps_checkLane shape lane) fun _ =>
      keeps_pushUnary (.extractLane shape signed lane) fun _ => trivial
  | replaceLane shape lane =>
    exact keeps_bind (keeps_checkLane shape lane) fun _ =>
      keeps_pushBinary (.replaceLane shape lane) fun _ _ => trivial
  | shuffle ls => exact keeps_shuffle (lanes ls rfl)
  | extra name _ => exact keeps_throw _
  | _ => cases is

/-- An operator that is compiled opens and drops frames as it opens and ends blocks. -/
theorem shifts_operator (lanes : op.Lanes) :
    Shifts env op.falls op.rises (operator env op) s fun _ t =>
    s.Settles t ∧ (op = .close → s.spine.head? = some true → t.current = none) := by
  have other {falls rises : Nat} {x : Build Unit} (ne : op ≠ .close)
      (h : Shifts env falls rises x s fun _ => s.Settles) :
      Shifts env falls rises x s fun _ t =>
        s.Settles t ∧ (op = .close → s.spine.head? = some true → t.current = none) :=
    h.imp fun _ _ settles => ⟨settles, fun is => absurd is ne⟩
  refine shifts_isDead (fun _ => ?_) ?_
  · cases op with
    | block | loop | ifBlock => exact other (by simp) (shifts_openFrame (by simp))
    | elseArm => exact other (by simp) shifts_elseArm
    | close => exact (shifts_close).imp fun _ _ is => ⟨is.1, fun _ => is.2⟩
    | _ => exact other (by simp) (shifts_pure (.refl s))
  · cases op with
    | unreachable => exact other (by simp) (shifts_trap (by simp))
    | block ty =>
      refine other (by simp) ((keeps_blockResult ty).followed fun _ t steady => ?_)
      exact (shifts_openFrame (by simp)).imp fun _ _ => steady.settles.trans
    | loop ty =>
      refine other (by simp) ((keeps_blockResult ty).followed fun _ t steady => ?_)
      exact (shifts_enterLoop _ _).imp fun _ _ => steady.settles.trans
    | ifBlock ty =>
      refine other (by simp) ((keeps_blockResult ty).followed fun _ t steady => ?_)
      exact (shifts_enterIf _).imp fun _ _ => steady.settles.trans
    | elseArm => exact other (by simp) shifts_elseArm
    | close => exact (shifts_close).imp fun _ _ is => ⟨is.1, fun _ => is.2⟩
    | br depth => exact other (by simp) (shifts_branch depth)
    | brIf depth => exact other (by simp) (shifts_branchIf depth)
    | brTable depths default => exact other (by simp) (shifts_branchTable depths default)
    | ret => exact other (by simp) ((shifts_ret).imp fun _ _ => And.right)
    | callIndirect ty table => exact other (by simp) (shifts_callIndirect ty table)
    | _ =>
      exact other (by simp) ((keeps_live lanes rfl).shifts.imp fun _ _ => Builder.Steady.settles)

theorem operator_depth {place : Nat} (lanes : op.Lanes) (some' : 0 < s.control.length)
    (run : operator env op (placed s place) = .ok ((), t)) :
    t.control.length = s.control.length + op.rises - op.falls := by
  refine (shifts_operator lanes () t run).1.depth (Nat.le_trans ?_ some')
  unfold Operator.falls
  split <;> simp

theorem keeps_declare (runs : List (Nat × ValType)) (zeros : ValType → Option Value) :
    Keeps env (declareLocals.declare runs zeros) := by
  induction runs generalizing zeros with
  | nil => exact keeps_pure _
  | cons run runs ih =>
    have rest (filler : Value) : Keeps env (do
        modify fun s =>
          { s with
            locals := s.locals ++ Array.replicate run.1 filler
            localTypes := s.localTypes ++ Array.replicate run.1 run.2 }
        declareLocals.declare runs fun t => if t = run.2 then some filler else zeros t) :=
      keeps_bind (keeps_modify (fun _ => rfl) fun _ => .same rfl rfl rfl rfl) fun _ => ih _
    rw [declareLocals.declare]
    cases zeros run.2 with
    | some v => exact keeps_bind (keeps_pure v) rest
    | none => exact keeps_bind (keeps_value (.const 0) trivial _) rest

theorem keeps_declareLocals (limits : Limits) (runs : List (Nat × ValType)) :
    Keeps env (declareLocals limits runs) := by
  have params (f : Function) : (f.bare.block 0).params = (f.block 0).params := by
    rw [bare_block]; rfl
  refine keeps_get (fun s => by simp only [Builder.bare, params]) fun s => ?_
  dsimp only
  split
  · exact keeps_throw _
  · refine keeps_bind (keeps_modify (fun _ => rfl) fun _ => .same rfl rfl rfl rfl) fun _ => ?_
    exact keeps_declare runs _

end Build

theorem Listed.lanes (listed : Listed c ops) : ∀ p ∈ ops, p.1.Lanes := by
  induction ops generalizing c with
  | nil => simp
  | cons p ops ih =>
    obtain ⟨-, next, read, more⟩ := listed
    exact forall_mem_cons.2 ⟨((Operator.read_good c).ok read).1, ih more⟩

/-- A body is compiled to its end by compiling its operators one after another, the last of which
closes the function. -/
theorem Build.operators_iff {m : Nat} (here : body.ops = some c) (enough : c.left < m) :
    (∃ body', operators env m body s = .ok (body', t) ∧ body'.isDone) ↔
      ∃ ops, Listed c ops ∧ Closing s.control.length (ops.map Prod.fst) ∧
        each env ops s = .ok ((), t) := by
  induction m generalizing body c s with
  | zero => cases enough
  | succ m ih =>
    rw [operators, bind_apply _ get_apply]
    cases control : s.control with
    | nil =>
      constructor
      · rintro ⟨_, ⟨⟩, done⟩
        rw [Body.isDone, here] at done
        exact ⟨[], done, rfl, rfl⟩
      · rintro ⟨_ | _, listed, closing, run⟩
        · cases run
          exact ⟨body, rfl, by rw [Body.isDone, here]; exact listed⟩
        · cases closing.1
    | cons fr outer =>
      -- one operator takes a byte, and changes the number of frames as it opens and closes them
      have step {o : Operator} {next : Cursor} {u : Builder}
          (read : Operator.read c = (.ok o, next))
          (one : operator env o (placed s c.offset) = .ok ((), u)) :
          next.left < m ∧ u.control.length = (fr :: outer).length + o.rises - o.falls := by
        obtain ⟨lanes, less⟩ := (Operator.read_good c).ok read
        exact ⟨by omega, control ▸ operator_depth lanes (by rw [control]; exact Nat.succ_pos _) one⟩
      simp only [isEmpty_cons, Bool.false_eq_true, if_false, Body.readOp, here]
      rw [show body.offset = c.offset by rw [Body.offset, here]]
      constructor
      · rintro ⟨body', built, done⟩
        obtain ⟨o, _, lifted, rest⟩ := bind_ok built
        obtain ⟨is, rfl⟩ := lift_ok lifted
        have read : Operator.read c = (.ok o, (Operator.read c).2) := Prod.ext is rfl
        rw [bind_apply _ (show setSrcloc c.offset _ = _ from modify_apply _)] at rest
        obtain ⟨_, u, one, more⟩ := bind_ok rest
        obtain ⟨less, depth⟩ := step read one
        obtain ⟨ops, listed, closing, run⟩ := (ih rfl less).1 ⟨body', more, done⟩
        exact ⟨(o, c.offset) :: ops, ⟨rfl, _, read, listed⟩, ⟨Nat.succ_pos _, depth ▸ closing⟩,
          (each_cons one).trans run⟩
      · rintro ⟨_ | ⟨⟨o, _⟩, ops⟩, listed, closing, run⟩
        · cases closing
        · obtain ⟨rfl, next, read, listed⟩ := listed
          obtain ⟨u, one, more⟩ := each_cons_ok run
          obtain ⟨less, depth⟩ := step read one
          obtain ⟨body', more, done⟩ :=
            (ih (show ({ body with ops := some next } : Body).ops = _ from rfl) less).2
              ⟨ops, listed, depth ▸ closing.2, more⟩
          refine ⟨body', ?_, done⟩
          rw [read]
          refine Eq.trans (b := operator env o (placed s c.offset) >>= fun r =>
            operators env m _ r.2) rfl ?_
          rw [one]
          exact more

/-! ### Whole functions -/

/-- A function on the way: its frame is the outermost one, and once that is closed no block is open.
-/
structure Builder.Underway (env : Env) (place : Nat) (s : Builder) : Prop where
  func : s.func.Proper env
  place : s.func.srcloc = place
  owes : s.Owes []
  frames : s.spine = [] ∧ s.current = none ∨ ∃ n, s.spine = replicate n false ++ [true]

theorem Builder.Underway.operator {op : Operator} {place offset : Nat} (lanes : op.Lanes)
    (orderly : s.Underway env place)
    (some' : 0 < s.control.length)
    (run : Build.operator env op (Build.placed s offset) = .ok ((), t)) :
    t.Underway env place := by
  obtain ⟨continues, -, settles, last⟩ := Build.shifts_operator lanes () t run
  refine ⟨orderly.func.onto (Nat.mod_lt _ (by decide)) continues.home continues.onto,
    continues.home.trans orderly.place,
    settles [] orderly.owes, ?_⟩
  have spine : t.spine = replicate op.rises false ++ s.spine.drop op.falls := continues.spine
  obtain ⟨n, frames⟩ : ∃ n, s.spine = replicate n false ++ [true] := by
    refine orderly.frames.resolve_left fun ⟨none', _⟩ => ?_
    rw [← s.spine_length, none'] at some'
    cases some'
  by_cases close : op = .close
  · subst close
    cases n with
    | zero => exact .inl ⟨by rw [spine, frames]; rfl,
      last rfl (by rw [show (Build.placed s offset).spine = _ from frames]; rfl)⟩
    | succ n => exact .inr ⟨n, by rw [spine, frames]; rfl⟩
  · have falls : op.falls = 0 := by unfold Operator.falls; split <;> simp_all
    refine .inr ⟨op.rises + n, ?_⟩
    rw [spine, frames, falls, drop_zero, ← append_assoc, replicate_append_replicate]

theorem Build.each_underway {place : Nat} (lanes : ∀ p ∈ ops, p.1.Lanes)
    (orderly : s.Underway env place)
    (closing : Closing s.control.length (ops.map Prod.fst)) (run : each env ops s = .ok ((), t)) :
    t.Underway env place ∧ t.control.length = 0 := by
  induction ops generalizing s with
  | nil =>
    cases run
    exact ⟨orderly, closing⟩
  | cons p ops ih =>
    obtain ⟨u, one, more⟩ := each_cons_ok run
    have depth := operator_depth (lanes p mem_cons_self) closing.1 one
    exact ih (fun q mem => lanes q (mem_cons_of_mem p mem))
      (orderly.operator (lanes p mem_cons_self) closing.1 one)
      (depth ▸ closing.2) more

/-- What precedes the code of a function is blamed on the body. -/
theorem entry_underway {place : Nat} (small : place < UInt32.size)
    (entered : entry env sig place runs = .ok ((), s)) :
    s.Underway env place ∧ s.control.length = 1 ∧ (∀ b, Block.Onto env place {} (s.func.block b)) ∧
      ∀ place', ∃ s', entry env sig place' runs = .ok ((), s') ∧ s'.bare = s.bare := by
  have kept : Function.BlocksOnto env place { sig } (Function.ofSig sig) :=
    onto_foldl (fun _ ty => onto_newParam 0 ty) sig.params _
  have empty (b : Nat) : ({ sig } : Function).block b = {} := by cases b <;> rfl
  have fresh (b : Nat) : Block.Onto env place {} ((Function.ofSig sig).block b) :=
    empty b ▸ kept.onto b
  obtain ⟨_, s₁, first, rest⟩ := bind_ok entered
  obtain ⟨_, s₂, second, rest⟩ := bind_ok rest
  cases rest
  have locals : Build.Keeps env (Build.declareLocals env.limits runs) :=
    Build.keeps_declareLocals _ runs
  have check : Build.Keeps env (Build.interruptCheck env.interruptMode) :=
    Build.keeps_interruptCheck _
  have steady : (Builder.ofSig sig place).Steady env s₂ :=
    (locals.steady _ _ _ first).trans (check.steady _ _ _ second)
  have spine : s₂.spine = [] := steady.spine
  have start : Function.Proper env { sig, srcloc := place } := by
    refine ⟨fun b mem => ?_, small⟩
    cases mem_singleton.1 mem
    exact ⟨by simp, by simp⟩
  have proper : Function.Proper env { Function.ofSig sig with srcloc := place } :=
    start.onto small rfl kept.onto
  refine ⟨⟨proper.onto small steady.kept.srcloc steady.kept.onto, steady.kept.srcloc, ?_,
    .inr ⟨0, congrArg (true :: ·) spine⟩⟩, ?_, fun b => (fresh b).trans (steady.kept.onto b), ?_⟩
  · refine steady.settles [] fun b lt _ => .inl ?_
    have size : (Function.ofSig sig).blocks.size = 1 := kept.size
    have lt : b < (Function.ofSig sig).blocks.size := lt
    cases Nat.lt_one_iff.1 (size ▸ lt)
    rfl
  · show s₂.control.length + 1 = 1
    rw [← s₂.spine_length, spine]
    rfl
  · have blind : Build.Blind (do
        Build.declareLocals env.limits runs
        Build.interruptCheck env.interruptMode
        Build.pushFrame { kind := .function, result := sig.result, base := 0 }) :=
      Build.blind_bind locals.blind fun _ => Build.blind_bind check.blind fun _ =>
        Build.blind_modify fun _ => rfl
    exact fun place' => blind.likewise entered (Builder.ofSig sig place') rfl

/-- A function is compiled operator by operator, up to the `end` that closes it. -/
theorem Function.ofBody_iff :
    Function.ofBody env sig body = .ok f ↔ ∃ runs c s₀ ops s, Body.localRuns body.start =
      (.ok runs, c) ∧
      entry env sig (body.offset % UInt32.size) runs.toList = .ok ((), s₀) ∧ Listed c ops ∧
        Closing 1 (ops.map Prod.fst) ∧
      Build.each env ops s₀ = .ok ((), s) ∧ f = s.func := by
  have loop {runs : Array (Nat × ValType)} {c : Cursor} {s₀ s : Builder}
      (read : Body.localRuns body.start = (.ok runs, c))
      (entered : entry env sig (body.offset % UInt32.size) runs.toList = .ok ((), s₀)) :
      (∃ body', Build.operators env (body.start.left + 1) { body with ops := some c } s₀ = .ok
        (body', s) ∧ body'.isDone) ↔
        ∃ ops, Listed c ops ∧ Closing 1 (ops.map Prod.fst) ∧
          Build.each env ops s₀ = .ok ((), s) := by
    obtain ⟨-, depth, -⟩ := entry_underway (Nat.mod_lt _ (by decide)) entered
    have ahead := Respects.state (x := Body.localRuns) (s := body.start) Cursor.Onward fun _ => True
    rw [read] at ahead
    have here : ({ body with ops := some c } : Body).ops = some c := rfl
    exact (Build.operators_iff here (Nat.lt_succ_of_le ahead)).trans (by rw [depth])
  constructor
  · intro compiled
    rcases read : Body.localRuns body.start with ⟨e | runs, c⟩
    · rw [ofBody, Body.readLocals, read] at compiled
      cases compiled
    · rw [ofBody_eq read] at compiled
      obtain ⟨⟨_, s₀⟩, entered, rest⟩ := except_ok compiled
      obtain ⟨⟨body', s⟩, built, last⟩ := except_ok rest
      dsimp only at last
      split at last
      · next done =>
        cases last
        obtain ⟨ops, listed, closing, run⟩ := (loop read entered).1 ⟨body', built, done⟩
        exact ⟨runs, c, s₀, ops, s, rfl, entered, listed, closing, run, rfl⟩
      · cases last
  · rintro ⟨runs, c, s₀, ops, s, read, entered, listed, closing, run, rfl⟩
    obtain ⟨body', built, done⟩ := (loop read entered).2 ⟨ops, listed, closing, run⟩
    rw [ofBody_eq read, entered]
    show (Build.operators env _ _ s₀ >>= _) = _
    rw [built]
    exact if_pos done

/-- A function that was compiled is proper, and no block of it is left open. -/
theorem Function.ofBody_proper (compiled : Function.ofBody env sig body = .ok f) :
    f.Proper env ∧ f.srcloc = body.offset % UInt32.size ∧
      ∀ b < f.blocks.size, (f.block b).leave ≠ none := by
  obtain ⟨runs, c, s₀, ops, s, _, entered, listed, closing, run, rfl⟩ := ofBody_iff.1 compiled
  obtain ⟨orderly, depth, -⟩ := entry_underway (Nat.mod_lt _ (by decide)) entered
  obtain ⟨last, ended⟩ := Build.each_underway listed.lanes orderly (depth ▸ closing) run
  have dead : s.current = none := by
    rcases last.frames with ⟨-, dead⟩ | ⟨n, frames⟩
    · exact dead
    · rw [← s.spine_length, frames] at ended
      simp at ended
  refine ⟨last.func, last.place, fun b lt unleft => ?_⟩
  rcases last.owes b lt unleft with here | mem
  · cases dead.symm.trans here
  · cases mem

/-! ### Where instructions come from -/

/-- The operator at a module offset, of a body that is compiled to `f`, gave an instruction: it got
there, as it is blamed in the end, while that operator was translated. -/
def Function.ComesFrom (f : Function) (env : Env) (sig : Sig) (body : Body) (b : Nat)
    (k : Option Nat) (offset : Nat) : Prop :=
  ∃ runs c s₀ before op rest s₁ s₂, Body.localRuns body.start = (.ok runs, c) ∧
    entry env sig (body.offset % UInt32.size) runs.toList = .ok ((), s₀) ∧
      Listed c (before ++ (op, offset) :: rest) ∧
    Build.each env before s₀ = .ok ((), s₁) ∧ Build.operator env op
      (Build.placed s₁ offset) = .ok ((), s₂) ∧
    (s₁.func.block b).srclocAt k ≠ (f.block b).srclocAt k ∧
      (s₂.func.block b).srclocAt k = (f.block b).srclocAt k

/-- An instruction of a compiled function stands there before the code of the body. -/
def Function.Precedes (f : Function) (env : Env) (sig : Sig) (body : Body) (b : Nat)
    (k : Option Nat) : Prop :=
  ∃ runs c s₀, Body.localRuns body.start = (.ok runs, c) ∧
    entry env sig (body.offset % UInt32.size) runs.toList = .ok ((), s₀) ∧
    (s₀.func.block b).srclocAt k = (f.block b).srclocAt k

/-- An instruction that was not there before is blamed on the operator that gave it. -/
theorem Build.each_gave (lanes : ∀ p ∈ ops, p.1.Lanes)
    (run : each env ops s = .ok ((), t)) {loc : Nat}
    {k : Option Nat} (is : (t.func.block b).srclocAt k = some loc) :
    (s.func.block b).srclocAt k = some loc ∨ ∃ before op offset rest s₁ s₂, ops =
      before ++ (op, offset) :: rest ∧
      each env before s = .ok ((), s₁) ∧ operator env op (placed s₁ offset) = .ok ((), s₂) ∧
      (s₁.func.block b).srclocAt k ≠ some loc ∧ (s₂.func.block b).srclocAt k = some loc ∧
        loc = offset % UInt32.size := by
  induction ops generalizing s with
  | nil =>
    cases run
    exact .inl is
  | cons p ops ih =>
    obtain ⟨op, offset⟩ := p
    obtain ⟨u, one, more⟩ := each_cons_ok run
    have goes := (shifts_operator (lanes _ mem_cons_self) () u one).1
    rcases ih (fun q mem => lanes q (mem_cons_of_mem _ mem)) more with now | ⟨before, gave⟩
    · by_cases old : (s.func.block b).srclocAt k = some loc
      · exact .inl old
      · exact .inr ⟨[], op, offset, ops, s, u, rfl, rfl, one, old, now,
          ((goes.onto b).srclocAt now).resolve_left old⟩
    · obtain ⟨op', offset', rest, s₁, s₂, rfl, first, gave⟩ := gave
      exact .inr ⟨(op, offset) :: before, op', offset', rest, s₁, s₂, rfl,
        (each_cons one).trans first, gave⟩

/-- The instructions of a compiled function are blamed on the operators that gave them, and what
precedes the code on the body. Offsets are kept in 32 bits. -/
theorem Function.ofBody_gave (compiled : Function.ofBody env sig body = .ok f)
    {k : Option Nat} {loc : Nat}
    (is : (f.block b).srclocAt k = some loc) :
    (∃ offset, f.ComesFrom env sig body b k offset ∧ loc = offset % UInt32.size) ∨
      f.Precedes env sig body b k ∧ loc = body.offset % UInt32.size := by
  obtain ⟨runs, c, s₀, ops, s, read, entered, listed, -, run, rfl⟩ := ofBody_iff.1 compiled
  obtain ⟨-, -, onto, -⟩ := entry_underway (Nat.mod_lt _ (by decide)) entered
  rcases Build.each_gave listed.lanes run is with old | ⟨before, op, offset, rest, s₁, s₂, rfl,
    first, one, new, now, same⟩
  · refine .inr ⟨⟨runs, c, s₀, read, entered, old.trans is.symm⟩,
      ((onto b).srclocAt old).resolve_left ?_⟩
    cases k <;> nofun
  · rw [← is] at new now
    exact .inl ⟨offset, ⟨runs, c, s₀, before, op, rest, s₁, s₂, read, entered, listed, first, one,
      new, now⟩, same⟩

end Wasmill.Ssa

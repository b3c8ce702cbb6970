import Wasmill.Proofs.Ssa.Nesting

/-! Blocks, checked and compiled.

A block is opened by the checker and by the builder alike. Once its inside is known to run like its
code, so is the whole block, and the checker and the builder go on together behind it. -/
namespace Wasmill.Ssa
open Wasm Steps List Build Check
variable {outer : List Frame} {frame : Scope} {ty : BlockType}

section
variable {σ ε α : Type} {env : Env} {O : Outside σ ε} {k k₀ k₁ k₂ k₃ k' : Checker}
  {s s₀ s₁ s₂ s₃ s' t : Builder} {fr : Frame}
  {b place : Nat} {result : Option ValType} {code rest : Nat → Wasm.State σ → Wasm.Result σ ε}
  {f : Function} {st : State}
  {c : Wasm.State σ} {v : Option Value} {r : α × Checker}

/-! ### Places -/

theorem Builder.Sound.placed (sound : s.Sound) (place : Nat) : (Build.placed s place).Sound :=
  { sound with }

theorem Tracks.placed (tracks : Tracks k s) (place : Nat) :
    Tracks { k with offset := place } (Build.placed s place) :=
  { tracks with }

theorem At.placed (at' : At f s c st) (place : Nat) : At f (Build.placed s place) c st :=
  { at' with }

theorem Agrees.transport {n ticks : Nat} {h : History σ} {r : Wasm.Result σ ε}
    (evolves : s.Evolves s')
    (same : ∀ (c : Wasm.State σ) st, At f s c st → At f s' c st)
    (agrees : Agrees f O n s ticks st h r) : Agrees f O n s' ticks st h r := by
  by_cases goes : ∃ c, r = .next c
  · obtain ⟨c, rfl⟩ := goes
    obtain ⟨st', reaches, after, kept⟩ := agrees
    exact ⟨st', reaches, same c st' after, kept⟩
  · exact agrees.later evolves fun c is => goes ⟨c, is⟩

/-- Where the code starts is not looked at. -/
theorem Simulates.unplaced (simulates : Simulates O k' (Build.placed s place) s' code) :
    Simulates O k' s s' code :=
  ⟨simulates.sound, { simulates.evolves with }, simulates.lower, simulates.tracks,
    fun f sound grows ticks c st at' =>
      simulates.agrees f sound grows ticks c st (at'.placed place)⟩

/-- Where the code goes on is not looked at. -/
theorem Simulates.placed (simulates : Simulates O k' s s' code) (place : Nat) :
    Simulates O { k' with offset := place } s (Build.placed s' place) code := by
  refine ⟨simulates.sound.placed place, { simulates.evolves with }, simulates.lower,
    fun b live => (simulates.tracks b live).placed place, fun f sound grows ticks c st at' => ?_⟩
  refine (simulates.agrees f sound grows ticks c st at').transport ?_ fun _ _ after =>
    after.placed place
  exact .same rfl rfl rfl

/-! ### One after another -/

theorem Simulates.andThen (first : Simulates O k₁ s s₁ code) (second : Simulates O k' s₁ s' rest) :
    Simulates O k' s s' fun ticks c => (code ticks c).andThen (rest ticks) where
  sound := second.sound
  evolves := first.evolves.trans first.sound.func second.sound.func second.evolves
  lower := second.lower.trans first.lower
  tracks := second.tracks
  agrees f sound grows ticks c st at' := by
    have grows₁ : s₁.func.Grows f :=
      second.evolves.grows.trans second.sound.func sound grows
    exact (first.agrees f sound grows₁ ticks c st at').andThen second.evolves
      first.evolves.grows.values
      fun c' st' after => second.agrees f sound grows ticks c' st' after

/-- Behind dead code nothing is reached. -/
theorem Simulates.dead (first : Simulates O k₁ s s₁ code) (dead : s₁.current = none) (loc : Nat) :
    Simulates O k' s { s₁ with srcloc := loc } fun ticks c =>
      (code ticks c).andThen (rest ticks) := by
  refine ⟨{ first.sound with }, { first.evolves with }, first.lower, fun b live => ?_,
    fun f sound grows ticks c st at' => ?_⟩
  · rw [show s₁.current = some b from live] at dead
    cases dead
  · have agrees := first.agrees f sound grows ticks c st at'
    have unreached : ∀ c', code ticks c ≠ .next c' := fun c' is => by
      rw [is] at agrees
      obtain ⟨st', -, after, -⟩ := agrees
      have live := after.block
      rw [dead] at live
      cases live
    have skips : (code ticks c).andThen (rest ticks) = code ticks c := by
      cases does : code ticks c with
      | next c' => exact absurd does (unreached c')
      | _ => rfl
    rw [skips]
    refine agrees.later ?_ unreached
    exact .same rfl rfl rfl

/-! ### Frames -/

/-- A frame is opened above what the checker and the builder had. -/
structure Entered (k₀ k₁ : Checker) (s₀ s₁ : Builder) (fr : Frame) : Prop where
  sound₀ : s₀.Sound
  tracks₀ : Tracks k₀ s₀
  opens : ∃ opened, Check.Opens k₀ k₁ opened ⟨[], (fr.result.map Ty.num).toList⟩ ∧
    fr.Marked s₀.func.sig opened
  sound : s₁.Sound
  control : s₁.control = fr :: s₀.control
  stack : s₁.stack = s₀.stack
  base : fr.base = s₀.stack.length
  evolves : s₀.Evolves { s₁ with control := s₀.control }

theorem Entered.tracks (entered : Entered k₀ k₁ s₀ s₁ fr) : Tracks k₁ s₁ := by
  obtain ⟨opened, opens, marked⟩ := entered.opens
  obtain ⟨assigned, scopes⟩ := opens.scopes
  have tracks := entered.tracks₀
  have operands : k₁.operands.toList = k₀.operands.toList := by
    rw [opens.operands]
    simp
  have size : k₁.operands.size = k₀.operands.size := by
    simpa using congrArg List.length operands
  have sig : s₁.func.sig = s₀.func.sig := entered.evolves.grows.sig
  refine ⟨?_, ?_, ?_, fun d fr' at' => ?_, fun sc last => ?_, _, _, scopes, Nat.le_of_eq size.symm⟩
  · rw [operands, tracks.operands, entered.stack]
    exact (operands_grow entered.sound₀ entered.evolves.grows).symm
  · rw [opens.locals, tracks.locals, show s₁.localTypes = _ from entered.evolves.types]
  · rw [scopes, entered.control, length_cons, length_cons, tracks.depth]
  · rw [entered.control] at at'
    rw [scopes, sig]
    cases d with
    | zero =>
      cases at'
      exact ⟨_, rfl, ⟨tracks.size.trans entered.base.symm, rfl, rfl, rfl, marked⟩⟩
    | succ d => exact tracks.frames d fr' at'
  · obtain ⟨sc', outer, fr', rest, scopes', -⟩ := tracks.head
    rw [scopes, scopes', getLast?_cons_cons, ← scopes'] at last
    rw [sig]
    exact tracks.whole sc last

/-- The inside of a frame is done, and the checker has found its results. -/
structure InsideDone (k₀ k₂ : Checker) (s₀ s₂ : Builder) (fr : Frame) (outer : List Frame)
    (frame : Scope) : Prop where
  sound : s₂.Sound
  enclosed : Enclosed s₀ s₂ fr outer
  evolves : s₀.Evolves { s₂ with control := outer }
  scopes : k₂.scopes = frame :: k₀.scopes
  locals : k₂.locals = k₀.locals
  below : k₂.operands.toList.take frame.height = k₀.operands.toList
  results : frame.ty = ⟨[], (fr.result.map Ty.num).toList⟩
  opened : fr.Marked s₀.func.sig frame.opened
  offered : ∀ b, s₂.current = some b → Offered s₂ (fr.result.map Ty.num).toList
  tracks₀ : Tracks k₀ s₀
  sound₀ : s₀.Sound

theorem InsideDone.topped (finished : InsideDone k₀ k₂ s₀ s₂ fr outer frame) : Topped s₂ 0 := by
  intro b fr' r live at' _ peeked
  rw [finished.enclosed.control] at at'
  cases at'
  exact (finished.offered b live).yields finished.sound peeked

theorem Entered.finish {outer : List Scope} (entered : Entered k₀ k₁ s₀ s₁ fr)
    (inner : Simulates O k₂ s₁ s₂ code) (stays : k₁.Stays k₂) (scopes : k₂.scopes = frame :: outer)
    (popped : Check.popAll frame.ty.results k₂ = .ok ((), k₃)) :
    ∃ fr₂ outer₂, fr.Extends s₁.func s₂.func fr₂ ∧ outer = k₀.scopes ∧
      InsideDone k₀ k₂ s₀ s₂ fr₂ outer₂ frame := by
  obtain ⟨opened, opens, marked⟩ := entered.opens
  obtain ⟨assigned, scopes₁⟩ := opens.scopes
  obtain ⟨sc, rest, u, scopes₁', scopes₂, le, same⟩ := stays.frame
  rw [scopes₁] at scopes₁'
  cases scopes₁'
  rw [scopes] at scopes₂
  cases scopes₂
  obtain ⟨fr₂, here, ext⟩ := inner.evolves.frames 0 fr (by rw [entered.control]; rfl)
  obtain ⟨outer₂, control⟩ : ∃ outer₂, s₂.control = fr₂ :: outer₂ := by
    cases control : s₂.control with
    | nil => rw [control] at here; cases here
    | cons fr' outer₂ => rw [control] at here; cases here; exact ⟨outer₂, rfl⟩
  have base₂ : s₂.base = s₀.stack.length := by
    simp [Builder.base, control, ext.base, entered.base]
  have base₁ : s₁.base = s₀.stack.length := by simp [Builder.base, entered.control, entered.base]
  have below : s₂.lower = s₀.stack := by
    rw [inner.lower, Builder.lower, base₁, entered.stack]
    simp
  have tail := inner.evolves.tail
  rw [entered.control, control] at tail
  have evolves : s₀.Evolves { s₂ with control := outer₂ } :=
    Builder.Evolves.trans (t := { s₁ with control := s₀.control }) entered.sound.func
      inner.sound.func entered.evolves tail
  have offered : ∀ b, s₂.current = some b → Offered s₂ (fr₂.result.map Ty.num).toList :=
    fun b live => by
    rw [ext.result]
    exact (inner.tracks b live).offered popped
  refine ⟨fr₂, outer₂, ext, rfl, inner.sound, ⟨control, below, ?_, entered.tracks₀.based, ?_⟩,
    evolves, scopes,
    stays.locals.trans opens.locals, ?_, by
      rw [ext.result], marked.extends ext, offered, entered.tracks₀,
    entered.sound₀⟩
  · exact evolves.base
  · intro b r rest live taken
    have offers := (offered b live).offers
    have size : s₂.base ≤ s₂.stack.length := (inner.tracks b live).based
    rw [ext.base, entered.base, ← base₂]
    cases r with
    | none => rw [show rest = s₂.stack from taken.stack.symm]; exact size
    | some w => exact offers w rest (by rw [← taken.there]; rfl) taken.stack
  · rw [same, opens.operands, map_nil, append_nil]
    exact take_of_length_le (by simp)

theorem Tracks.congr (tracks : Tracks k s) (operands : k'.operands = k.operands)
    (locals : k'.locals = k.locals) (scopes : k'.scopes = k.scopes) : Tracks k' s := by
  obtain ⟨sc, outer, there, le⟩ := tracks.rooted
  exact ⟨by rw [operands]; exact tracks.operands, by rw [locals]; exact tracks.locals,
    by rw [scopes]; exact tracks.depth, by rw [scopes]; exact tracks.frames,
    by rw [scopes]; exact tracks.whole, sc, outer, by rw [scopes]; exact there, by
      rw [operands]; exact le⟩

/-- Behind a frame, operands lie on what was below it. -/
theorem InsideDone.above {results : List Ty} {vs : List Value}
    (finished : InsideDone k₀ k₂ s₀ s₂ fr outer frame)
    (closes : Check.Closes k₂ k₃ frame k₀.scopes results) (evolves : s₀.Evolves s₃)
    (stack : s₃.stack = vs ++ s₀.stack)
    (typed : (results.map Operand.known).reverse = vs.map s₃.func.operand) : Tracks k₃ s₃ := by
  have operands : k₃.operands.toList.reverse = s₃.stack.map s₃.func.operand := by
    rw [closes.operands, finished.below, reverse_append, finished.tracks₀.operands,
      stack, map_append, operands_grow finished.sound₀ evolves.grows, typed]
  have later := finished.tracks₀.later k₃.operands s₃ evolves operands
    (by rw [stack]; simp; exact Nat.le_trans finished.tracks₀.based (Nat.le_add_left _ _))
  exact later.congr rfl (closes.locals.trans finished.locals) closes.scopes

theorem InsideDone.behind (finished : InsideDone k₀ k₂ s₀ s₂ fr outer frame)
    (closes : Check.Closes k₂ k₃ frame k₀.scopes frame.ty.results) (evolves : s₀.Evolves s₃)
    (stack : s₃.stack = v.toList ++ s₀.stack) (yields : Yields s₃.func fr.result v) :
    Tracks k₃ s₃ := by
  refine finished.above closes evolves stack ?_
  rw [finished.results]
  cases is : fr.result with
  | none =>
    rw [is] at yields
    rw [show v = none from yields]
    rfl
  | some ty =>
    rw [is] at yields
    obtain ⟨w, rfl, -, typed⟩ := yields
    simp [Function.operand, typed]

/-! ### Ends -/

theorem Build.operator_close : Build.operator env .close s = Build.close s := by
  rw [Build.operator, bind_apply _ isDead_apply]
  split <;> rfl

theorem Build.operator_elseArm : Build.operator env .elseArm s = Build.elseArm s := by
  rw [Build.operator, bind_apply _ isDead_apply]
  split <;> rfl

theorem Build.close_block (control : s.control = fr :: outer)
    (kind : fr.kind = .block ∨ ∃ e ls, fr.kind = .ifBlock e ls) :
    Build.close s = Build.endBlock fr { s with control := outer } := by
  rw [Build.close, bind_apply _ get_apply]
  simp only [control]
  rw [bind_apply _ set_apply]
  rcases kind with is | ⟨e, ls, is⟩ <;> simp only [is]

theorem Build.close_loop {header : Option LoopHeader} (control : s.control = fr :: outer)
    (kind : fr.kind = .loop header) :
    Build.close s = Build.endLoop fr header { s with control := outer } := by
  rw [Build.close, bind_apply _ get_apply]
  simp only [control]
  rw [bind_apply _ set_apply]
  simp only [kind]

/-- The builder has gone on where the checker is, with the same frames around. -/
structure Behind (k' : Checker) (s s' : Builder) : Prop where
  sound : s'.Sound
  evolves : s.Evolves s'
  lower : s'.lower = s.lower
  tracks : ∀ b, s'.current = some b → Tracks k' s'

theorem InsideDone.goes (finished : InsideDone k₀ k₂ s₀ s₂ fr outer frame)
    (closes : Check.Closes k₂ k₃ frame k₀.scopes frame.ty.results) (sound : s₃.Sound)
    (evolves : ({ s₂ with control := outer } : Builder).Evolves s₃)
    (stack : s₃.stack = v.toList ++ s₀.stack)
    (yields : ∀ b, s₃.current = some b → Yields s₃.func fr.result v) : Behind k₃ s₀ s₃ := by
  have evolves : s₀.Evolves s₃ := Builder.Evolves.trans (t := { s₂ with control := outer })
    finished.sound.func sound.func finished.evolves evolves
  exact ⟨sound, evolves, lower_eq [] v.toList rfl stack evolves.base finished.tracks₀.based,
    fun b live => finished.behind closes evolves stack (yields b live)⟩

/-- What lies on the stack behind a frame that no edge leads to. -/
theorem InsideDone.straight {g : Function} (finished : InsideDone k₀ k₂ s₀ s₂ fr outer frame)
    (grows : s₂.func.Grows g)
    (straight : Straight { s₂ with func := g } s₃ fr outer) :
    ∃ v : Option Value, s₃.stack = v.toList ++ s₀.stack ∧
      ∀ b, s₃.current = some b → Yields s₃.func fr.result v := by
  rcases straight with ⟨dead, rfl⟩ | ⟨b, r, rest, live, taken, rfl⟩
  · exact ⟨none, finished.enclosed.drop_eq,
      fun b live => by rw [show _ = _ from dead] at live; cases live⟩
  · refine ⟨r, by rw [← finished.enclosed.drop_eq], fun _ _ => ?_⟩
    exact ((finished.offered b live).yields finished.sound
      (Taken.peeked ⟨taken.there, taken.stack⟩)).mono
      grows.values grows.types

/-- The end of a `block` or an `if`. -/
theorem Entered.closed (entered : Entered k₀ k₁ s₀ s₁ fr) (inner : Simulates O k₂ s₁ s₂ code)
    (stays : k₁.Stays k₂) (kind : fr.kind = .block ∨ ∃ e ls, fr.kind = .ifBlock e ls)
    (goes : CheckedAndBuilt env .close k₂ k₃ s₂ s₃) :
    ∃ fr₂ outer, fr.Extends s₁.func s₂.func fr₂ ∧ Enclosed s₀ s₂ fr₂ outer ∧
      BlockEnds s₂ s₃ fr₂ outer ∧ Behind k₃ s₀ s₃ := by
  obtain ⟨frame, outer', _, scopes, popped, -, closes, bare⟩ := close_ok stays.rooted goes.checked
  obtain ⟨fr₂, outer, ext, rfl, finished⟩ := entered.finish inner stays scopes popped
  have enclosed := finished.enclosed
  have kind₂ : fr₂.kind = .block ∨ ∃ e ls, fr₂.kind = .ifBlock e ls := by
    have kept := ext.kind
    rcases kind with is | ⟨e, ls, is⟩
    · rw [is] at kept; exact .inl kept
    · rw [is] at kept; exact .inr ⟨e, ls, kept⟩
  have forward : fr₂.Forward := fun h is => by
    rcases kind₂ with other | ⟨e, ls, other⟩ <;> rw [is] at other <;> cases other
  have bare₂ (e : EdgeRef) (ls : Array Value) (is : fr₂.kind = .ifBlock (some e) ls) :
      fr₂.result = none := by
    have opened := finished.opened
    rw [Frame.Marked, is] at opened
    have none := bare opened (by rw [finished.results])
    rw [finished.results] at none
    cases result : fr₂.result with
    | none => rfl
    | some ty => rw [result] at none; cases none
  have built := goes.built
  rw [operator_close, close_block enclosed.control kind₂] at built
  have ends : BlockEnds s₂ s₃ fr₂ outer :=
    endBlock_ok finished.sound enclosed.control forward finished.topped
      enclosed.grounded bare₂ built
  have sound := ends.sound finished.sound enclosed.control
  have evolves := ends.evolves enclosed.control
  refine ⟨fr₂, outer, ext, enclosed, ends, ?_⟩
  rcases ends with ⟨-, straight⟩ | ⟨u, p, v, pending, passed, -, met⟩
  · obtain ⟨v, stack, yields⟩ := finished.straight (.refl _) straight
    exact finished.goes closes sound evolves stack yields
  · have stack : s₃.stack = v.toList ++ s₀.stack := by
      rw [met.stack, show _ = _ from passed.below, enclosed.drop_eq]
    exact finished.goes closes sound evolves stack fun _ _ => met.yields

/-! ### Blocks -/

/-- A block has the results that the checker and the builder see. -/
theorem blockTy_result {β : Type} {check : FuncType → Check α} {build : Option ValType → Build β}
    {r' : β × Builder}
    (checked : (Check.blockTy ty >>= check) k = .ok r)
    (built : (Build.blockResult ty >>= build) s = .ok r') :
    ∃ result, ty.arity = arityOf result ∧ check ⟨[], (result.map Ty.num).toList⟩ k = .ok r ∧
      build result s = .ok r' := by
  obtain ⟨fty, k₁, typed, checked⟩ := bind_ok checked
  obtain ⟨result, t, typed', built⟩ := bind_ok built
  cases ty with
  | empty => cases typed; cases typed'; exact ⟨none, rfl, checked, built⟩
  | value ty =>
    obtain ⟨-, last⟩ := demand_ok (after_context typed :)
    cases last
    cases ty with
    | num t => cases typed'; exact ⟨some t, rfl, checked, built⟩
    | ref r => cases typed'
  | func index => cases typed'

theorem popAll_nil {g : Unit → Check α} (h : (Check.popAll [] >>= g) k = .ok r) :
    g () k = .ok r := by
  obtain ⟨_, k₁, popped, h⟩ := bind_ok h
  cases popped
  exact h

theorem At.entered (at' : At f s c st)
    (base : fr.base = s.stack.length) : At f { s with control := fr :: s.control } c.opened st := by
  refine { at' with stack := ?_ }
  have inner : Builder.inner { s with control := fr :: s.control } = [] := by
    simp [Builder.inner, Builder.base, base]
  rw [inner]
  rfl

/-- What the code inside a block comes to, once the block is opened. -/
def Inside (O : Outside σ ε) (sig : Sig) (k₁ k₂ : Checker) (s₁ s₂ : Builder)
    (code : Nat → Wasm.State σ → Wasm.Result σ ε) : Prop :=
  Tracks k₁ s₁ → s₁.Sound → s₁.func.sig = sig → ∀ b, s₁.current = some b →
    Simulates O k₂ s₁ s₂ code ∧ k₁.Stays k₂

/-- What is behind a conditional, seen from before its condition was taken. -/
theorem Behind.popped {cond : Value} {rest : List Value}
    (behind : Behind k' { s with stack := rest } s')
    (stack : s.stack = cond :: rest) (le : s.base ≤ rest.length) : Behind k' s s' :=
  ⟨behind.sound, behind.evolves.popped, behind.lower.trans (lower_eq [cond] [] stack rfl rfl le),
    behind.tracks⟩

/-- From the first arm to the second: the frame is opened anew above the same operands. -/
theorem InsideDone.second {u : Builder} {p : Option Pending}
    {e : EdgeRef} {ls : Array Value} (finished : InsideDone k₀ k₂ s₀ s₂ fr outer frame)
    (closes : Check.Closes k₂ k' frame k₀.scopes []) (opens : Check.Opens k' k₃ .elseArm frame.ty)
    (passed : Passed s₂ u fr outer p)
    (second : ElseEntered u s₃ { fr with pending := fr.pending ++ p.toArray } e ls outer)
    (base : fr.base = s₀.stack.length) :
    s₃.stack = s₀.stack ∧ s₀.Evolves { s₃ with control := outer } ∧
      Entered k' k₃ { s₃ with control := outer } s₃
        { fr with kind := .ifBlock none ls, pending := fr.pending ++ p.toArray } := by
  have stack : s₃.stack = s₀.stack := by
    rw [second.stack, show _ = _ from passed.below, finished.enclosed.drop_eq]
  have tail := passed.evolves.tail
  rw [finished.enclosed.control, passed.control] at tail
  have evolves₁ : s₀.Evolves { u with control := outer } :=
    Builder.Evolves.trans (t := { s₂ with control := outer }) finished.sound.func
      passed.sound.func finished.evolves tail
  have evolves : s₀.Evolves { s₃ with control := outer } :=
    Builder.Evolves.trans (t := { u with control := outer }) passed.sound.func
      second.sound.func evolves₁
      (.of_adds (passed.sound.close passed.control) second.adds second.types rfl)
  refine ⟨stack, evolves, second.sound.close second.control,
    finished.above closes evolves (show _ = [] ++ _ from stack) rfl,
    ⟨.elseArm, by rw [← finished.results]; exact opens, rfl⟩, second.sound, second.control, rfl,
    by rw [show _ = _ from stack]; exact base, .same rfl rfl rfl⟩

/-- The place below a frame can be any that looks the same. -/
theorem Enclosed.of_stack (enclosed : Enclosed s s₂ fr outer) (stack : s.stack = s₀.stack)
    (base : s.base = s₀.base) : Enclosed s₀ s₂ fr outer :=
  ⟨enclosed.control, enclosed.below.trans stack, enclosed.base.trans base,
    by rw [← base, ← stack]; exact enclosed.rooted, enclosed.grounded⟩

section
variable (tracks : Tracks k s) (sound : s.Sound) (live : s.current = some b)
include tracks sound live

theorem block_simulates (opens : CheckedAndBuilt env (.block ty) k k₁ s s₁)
    (within : Inside O s.func.sig k₁ k₂ s₁ s₂ code)
    (closes : CheckedAndBuilt env .close k₂ k₃ s₂ s₃) :
    Simulates O k₃ s s₃ fun ticks c => (code ticks c.opened).closed ty.arity c.stack := by
  obtain ⟨result, arity, opened, entered'⟩ := blockTy_result opens.checked (opens.live live)
  cases entered'
  have entered :
      Entered k k₁ s { s with control := ⟨.block, result, s.stack.length, #[]⟩ :: s.control }
      ⟨.block, result, s.stack.length, #[]⟩ :=
    ⟨sound, tracks, ⟨.block, pushScope_opens _ _ (popAll_nil opened), rfl⟩,
      sound.push (Builder.frame_fresh (.inl rfl) _ _), rfl, rfl, rfl, .same rfl rfl rfl⟩
  obtain ⟨inner, stays⟩ := within entered.tracks entered.sound rfl b live
  obtain ⟨fr, outer, ext, enclosed, ends, behind⟩ := entered.closed inner stays (.inl rfl) closes
  refine { behind with agrees := fun f sound' grows ticks c st at' => ?_ }
  have grows₂ := ends.grows inner.sound enclosed.control sound' grows
  have agrees := inner.agrees f sound' grows₂ ticks c.opened st (at'.entered rfl)
  rw [arity, ← show fr.result = result from ext.result]
  exact ends.agrees inner.sound enclosed (.inl ext.kind) sound' grows at'.stack
    (fun w mem => sound.stack w (mem_of_mem_take mem)) inner.evolves.grows.values agrees

/-! ### Loops -/

theorem loop_simulates (quiet : O.Undisturbed) (opens : CheckedAndBuilt env (.loop ty) k k₁ s s₁)
    (within : Inside O s.func.sig k₁ k₂ s₁ s₂ code)
    (closes : CheckedAndBuilt env .close k₂ k₃ s₂ s₃) :
    Simulates O k₃ s s₃ fun ticks c => (turns code ticks c).closed ty.arity c.stack := by
  obtain ⟨result, arity, opened, enters⟩ := blockTy_result opens.checked (opens.live live)
  have looped := enterLoop_ok sound live enters
  have entered : Entered k k₁ s s₁
      ⟨.loop (some ⟨s.func.blocks.size, ⟨b, 0⟩, #[]⟩), result, s.stack.length, #[]⟩ :=
    ⟨sound, tracks, ⟨.loop, pushScope_opens _ _ (popAll_nil opened), rfl, rfl⟩, looped.sound,
      looped.control,
      looped.stack, rfl, .of_adds sound looped.adds looped.types rfl⟩
  obtain ⟨inner, stays⟩ :=
    within entered.tracks entered.sound entered.evolves.grows.sig _ looped.current
  obtain ⟨frame, outer', _, scopes, popped, -, closed, -⟩ := close_ok stays.rooted closes.checked
  obtain ⟨fr, outer, ext, rfl, finished⟩ := entered.finish inner stays scopes popped
  obtain ⟨head, kind, -, -⟩ := ext.kind
  have enclosed := finished.enclosed
  have built := closes.built
  rw [operator_close, close_loop enclosed.control kind] at built
  obtain ⟨g, pruned, straight⟩ :=
    endLoop_ok inner.sound enclosed.control kind enclosed.grounded built
  obtain ⟨same, sound₃, evolves⟩ := straight.pruned inner.sound enclosed.control kind pruned
  have behind : Behind k₃ s s₃ := by
    obtain ⟨v, stack, yields⟩ := finished.straight pruned.grows straight
    exact finished.goes closed sound₃ evolves stack yields
  refine { behind with agrees := fun f sound' grows ticks c st at' => ?_ }
  rw [arity, ← show fr.result = result from ext.result]
  exact looped.agrees quiet sound live inner enclosed kind pruned straight sound' grows at'

/-! ### Conditionals -/

variable (opens : CheckedAndBuilt env (.ifBlock ty) k k₁ s s₁)
include opens

/-- The first arm is entered, with the condition taken. -/
theorem if_entered : ∃ k₀ result cond rest, s.base ≤ rest.length ∧ ty.arity = arityOf result ∧
    IfEntered s s₁ b result cond rest ∧
      Entered k₀ k₁ { s with stack := rest } s₁
        ⟨.ifBlock (some ⟨b, 1⟩) s.locals, result, rest.length, #[]⟩ := by
  obtain ⟨result, arity, opened, enters⟩ := blockTy_result opens.checked (opens.live live)
  obtain ⟨_, k₂, condition, opened⟩ := bind_ok opened
  obtain ⟨cond, rest, stack, le, -, -, tracks₁⟩ := tracks.pop condition
  obtain ⟨cond', rest', entered⟩ := enterIf_ok sound live enters
  have stack' := entered.popped
  rw [stack] at stack'
  cases stack'
  refine ⟨k₂, result, cond, rest, le, arity, entered, sound.pop stack, tracks₁,
    ⟨.ifArm, pushScope_opens _ _ (popAll_nil opened),
      rfl⟩, entered.sound, entered.control, entered.stack, rfl, ?_⟩
  exact .of_adds (sound.pop stack) entered.adds entered.types rfl

theorem ifThen_simulates (within : Inside O s.func.sig k₁ k₂ s₁ s₂ code)
    (closes : CheckedAndBuilt env .close k₂ k₃ s₂ s₃) :
    Simulates O k₃ s s₃ fun ticks c => match c.stack with
      | x :: below =>
        (if x.low32 ≠ 0 then code ticks c.opened else .next c.opened).closed ty.arity below
      | [] => .stuck := by
  obtain ⟨k₀, result, cond, rest, le, arity, chosen, entered⟩ := if_entered tracks sound live opens
  obtain ⟨inner, stays⟩ :=
    within entered.tracks entered.sound entered.evolves.grows.sig _ chosen.current
  obtain ⟨fr, outer, ext, enclosed, ends, behind⟩ :=
    entered.closed inner stays (.inr ⟨_, _, rfl⟩) closes
  have behind := behind.popped chosen.popped le
  refine { behind with agrees := fun f sound' grows ticks c st at' => ?_ }
  obtain ⟨x, below, top, -, -⟩ := at'.popped chosen.popped le
  simp only [top]
  rw [arity, ← show fr.result = result from ext.result]
  exact chosen.agrees live le sound' at' top sound inner enclosed ext.kind ends grows

theorem ifElse_simulates {k₄ k₅ : Checker} {s₄ s₅ : Builder}
    {other : Nat → Wasm.State σ → Wasm.Result σ ε}
    (within : Inside O s.func.sig k₁ k₂ s₁ s₂ code)
    (switches : CheckedAndBuilt env .elseArm k₂ k₃ s₂ s₃)
    (within' : Inside O s.func.sig k₃ k₄ s₃ s₄ other)
    (closes : CheckedAndBuilt env .close k₄ k₅ s₄ s₅) : Simulates O k₅ s s₅ fun ticks c =>
      match c.stack with
      | x :: below =>
        (if x.low32 ≠ 0 then code ticks c.opened else other ticks c.opened).closed ty.arity below
      | [] => .stuck := by
  obtain ⟨k₀, result, cond, rest, le, arity, chosen, entered⟩ := if_entered tracks sound live opens
  obtain ⟨inner, stays⟩ :=
    within entered.tracks entered.sound entered.evolves.grows.sig _ chosen.current
  -- the end of the first arm
  obtain ⟨frame, outer', _, k₂', scopes, popped, -, -, closed, opened⟩ :=
    Check.elseArm_ok stays.rooted switches.checked
  obtain ⟨fr, outer, ext, rfl, finished⟩ := entered.finish inner stays scopes popped
  have enclosed := finished.enclosed
  have switched := switches.built
  rw [operator_elseArm] at switched
  obtain ⟨u, p, passed, second⟩ :=
    elseArm_ok inner.sound enclosed.control ext.kind finished.topped enclosed.grounded switched
  -- the second arm
  obtain ⟨stack, evolves, entered'⟩ := finished.second closed opened passed second ext.base
  obtain ⟨inner', stays'⟩ :=
    within' entered'.tracks entered'.sound evolves.grows.sig _ second.current
  obtain ⟨fr', outer', ext', enclosed', ends, behind⟩ :=
    entered'.closed inner' stays' (.inr ⟨_, _, rfl⟩) closes
  have enclosed₀ : Enclosed { s with stack := rest } s₄ fr' outer' :=
    enclosed'.of_stack stack evolves.base
  have behind₀ : Behind k₅ { s with stack := rest } s₅ := by
    refine ⟨behind.sound, ?_, ?_, behind.tracks⟩
    · exact Builder.Evolves.trans (t := { s₃ with control := outer }) second.sound.func
        behind.sound.func evolves behind.evolves
    · refine behind.lower.trans ?_
      rw [Builder.lower, Builder.lower, evolves.base]
      rw [show _ = _ from stack]
  have behind := behind₀.popped chosen.popped le
  refine { behind with agrees := fun f sound' grows ticks c st at' => ?_ }
  obtain ⟨x, below, top, -, -⟩ := at'.popped chosen.popped le
  simp only [top]
  rw [arity, ← show fr'.result = result from ext'.result.trans ext.result]
  exact chosen.agrees_else live le sound' at' top sound inner enclosed ext.kind passed second inner'
    enclosed₀ ends
    (.inr ⟨_, _, ext'.kind⟩) grows

end
end
end Wasmill.Ssa

import Wasmill.Proofs.Ssa.Emitting

/-! Operators one by one.

What is compiled for an operator does what the operator does, and leaves the builder where the
checker is. -/
namespace Wasmill.Ssa
open Wasm Steps Ssa.Function List Array Builder
variable {index depth : Nat} {rest : List Value} {v : Value} {types : List Ty}

section
variable {σ ε : Type} {f : Function} {r : Option Value} {ty : Ty} {exit : Exit} {x : Slot}

/-- Code is compiled between two states, and whatever function comes of it runs like the code. -/
structure Simulates (O : Outside σ ε) (k' : Checker) (s s' : Builder)
    (code : Nat → Wasm.State σ → Wasm.Result σ ε) : Prop where
  sound : s'.Sound
  evolves : s.Evolves s'
  lower : s'.lower = s.lower
  tracks : ∀ b, s'.current = some b → Tracks k' s'
  agrees : ∀ f : Function, f.Sound → s'.func.Grows f → ∀ ticks c st, At f s c st →
    Agrees f O s.func.values.size s' ticks st c.history (code ticks c)

theorem Simulates.grows {O : Outside σ ε} {k' : Checker} {s s' : Builder}
    {code : Nat → Wasm.State σ → Wasm.Result σ ε}
    (inner : Simulates O k' s s' code) (sound : f.Sound) (grows : s'.func.Grows f) :
    s.func.Grows f :=
  inner.evolves.grows.trans inner.sound.func sound grows

/-- Calls through tables that are empty for good trap. -/
def Hollow (env : Env) (O : Outside σ ε) : Prop :=
  ∀ desc ∈ env.tables, desc.Empty → ∀ st ty token index args,
    O st (.callIndirect ty desc.handle token index args) = .trap .tableOutOfBounds

variable {env : Env} {O : Outside σ ε} {o : Operator} {k k' : Checker} {s s' t : Builder}
  {b place : Nat}
  {result : Option ValType} {code : Nat → Wasm.State σ → Wasm.Result σ ε}

theorem Builder.Evolves.popped (evolves : ({ s with stack := rest } : Builder).Evolves s') :
  s.Evolves s' :=
  { evolves with }

theorem lower_eq (taken top : List Value) (stack : s.stack = taken ++ rest)
    (stack' : s'.stack = top ++ rest) (base : s'.base = s.base) (le : s.base ≤ rest.length) :
    s'.lower = s.lower := by
  rw [Builder.lower, Builder.lower, stack, stack', base, drop_below le, drop_below le]

theorem Emits.simulates (emits : Emits env o k' s s' b) (sound : s.Sound)
    (live : s.current = some b)
    (srcloc : s.srcloc = place % UInt32.size)
    (performs : ∀ c : Wasm.State σ, c.operate env O result o place = c.perform env O o place) :
    Simulates O k' s s' fun _ c => c.operate env O result o place := by
  obtain ⟨inst, ty, taken, rest, stack, le, rfl, tracks, computes⟩ := emits
  have live' : ({ s with stack := rest } : Builder).current = some b := live
  have fewer := sound.below stack
  have evolves : ({ s with stack := rest } : Builder).Evolves (Builder.emitted _ b inst ty) :=
    emitted_evolves fewer live' ty
  refine ⟨fewer.emitted live' ty, { evolves with }, ?_,
    fun _ _ => tracks, fun f sound' grows ticks c st at' => ?_⟩
  · cases ty with
    | none => exact lower_eq taken [] stack rfl rfl le
    | some ty => exact lower_eq taken [_] stack rfl rfl le
  · have reads := at'.stack
    rw [inner_of_append stack le] at reads
    obtain ⟨xs, below, first, second, is⟩ := readAll_append_eq_some.1 reads
    obtain ⟨d, demands, does⟩ := computes f st.vals xs below first
    rw [performs]
    exact emitted_agrees sound live at' grows demands stack le sound' second srcloc (is ▸ does)

/-! ### Operators without an instruction -/

/-- Nothing is compiled; only the bindings of the builder change. -/
theorem simulates_silent (sound : s'.Sound) (evolves : s.Evolves s') (lower : s'.lower = s.lower)
    (tracks : Tracks k' s')
    (silent : ∀ f c st, At f s c st → ∃ c' : Wasm.State σ,
      (∀ ticks, code ticks c = .next c') ∧ At f s' c' st ∧
        c'.history = c.history) : Simulates O k' s s' code :=
  ⟨sound, evolves, lower, fun _ _ => tracks, fun f _ _ ticks c st at' => by
    obtain ⟨c', does, after, same⟩ := silent f c st at'
    rw [does, ← same]
    exact ⟨st, .refl _, after, .refl _ _⟩⟩

/-! ### Locals -/

theorem localAt_ok (h : Check.localAt index k = .ok (ty, k')) :
    k' = k ∧ k.locals[index]? = some ty := orReject_ok (after_get h :)

/-- A value is put on the operands. -/
theorem Tracks.push (tracks : Tracks k s) :
    Tracks { k with operands := k.operands.push (s.func.operand v) }
      { s with stack := v :: s.stack } :=
  tracks.later _ _ (.same rfl rfl rfl) (by simp [tracks.operands])
    (Nat.le_succ_of_le tracks.based)

/-- Which values the locals have is not looked at. -/
theorem Tracks.rebind {locals : Array Value} (tracks : Tracks k s) :
    Tracks k { s with locals := locals } :=
  { tracks with }

theorem Fits.set {types : Array ValType} {vs : Array Value} {v : Nat} (fits : Fits f types vs)
    (lt : v < f.values.size)
    (ty : types[index]? = some (f.valueTy v)) : Fits f types (vs.setIfInBounds index v) where
  size := by simp [fits.size]
  lt w mem := by
    rcases mem_or_eq_of_mem_setIfInBounds mem with mem | rfl
    · exact fits.lt w mem
    · exact lt
  ty i w at' := by
    rw [getElem?_setIfInBounds] at at'
    split at at'
    · next is =>
      subst is
      split at at'
      · cases at'; exact ty
      · cases at'
    · exact fits.ty i w at'

theorem readAll_set {vals : Slots} {vs : List Value} {xs : List Slot}
    (reads : f.readAll vals vs = some xs)
    (read : f.read vals v = some x) (index : Nat) :
    f.readAll vals (vs.set index v) = some (xs.set index x) := by
  refine readAll_of_each (by simp [readAll_length reads]) fun i w at' => ?_
  rw [List.getElem?_set] at at' ⊢
  split at at'
  · next is =>
    rw [if_pos is, readAll_length reads]
    split at at'
    · next inside => cases at'; rw [if_pos inside]; exact read
    · cases at'
  · next other => rw [if_neg other]; exact readAll_getElem? reads at'

theorem assign_ok {ty : ValType} (h : Check.assign index (.num ty) k = .ok ((), k')) : k' = k := by
  cases h
  rfl

theorem setLocal_ok (h : Build.setLocal index v s = .ok ((), s')) :
    index < s.locals.size ∧ s' = { s with locals := s.locals.setIfInBounds index v } := by
  rw [Build.setLocal, bind_apply _ get_apply] at h
  split at h
  · next lt => cases h; exact ⟨lt, rfl⟩
  · cases h

theorem At.local_lt {c : Wasm.State σ} {st : State} {index : Nat} (at' : At f s c st)
    (inside : index < s.locals.size) :
    index < c.locals.length := by
  rw [readAll_length at'.locals, length_toList]
  exact inside

theorem At.setLocal {c : Wasm.State σ} {st : State} (at' : At f s c st)
    (read : f.read st.vals v = some x) :
    At f { s with locals := s.locals.setIfInBounds index v }
      { c with locals := c.locals.set index x } st := by
  refine { at' with locals := ?_ }
  rw [show (({ s with locals := s.locals.setIfInBounds index v } : Builder).locals).toList =
    s.locals.toList.set index v from toList_setIfInBounds ..]
  exact readAll_set at'.locals read index

/-! ### Traps and returns -/

/-- The block is left for good. -/
theorem left_simulates (taken : List Value) (sound : s.Sound) (live : s.current = some b)
    (edges : exit.edges = [])
    (stack : s.stack = taken ++ rest) (le : s.base ≤ rest.length)
    (is : s' = ({ s with stack := rest } : Builder).left b exit)
    (agrees : ∀ f : Function, f.Sound → (s.left b exit).func.Grows f → ∀ ticks c st,
      At f s c st → Agrees f O s.func.values.size s' ticks st c.history (code ticks c)) :
    Simulates O k' s s' code := by
  subst is
  have live' : ({ s with stack := rest } : Builder).current = some b := live
  have fewer := sound.below stack
  have evolves := left_evolves fewer live' exit
  exact ⟨fewer.leave live' (by simp [edges]), { evolves with }, lower_eq taken [] stack rfl rfl le,
    nofun, agrees⟩

theorem TrapsEmpty.simulates (empty : TrapsEmpty env o s s' b) (hollow : Hollow env O)
    (sound : s.Sound)
    (live : s.current = some b) (srcloc : s.srcloc = place % UInt32.size)
    (performs : ∀ c : Wasm.State σ, c.operate env O result o place = c.perform env O o place) :
    Simulates O k' s s' fun _ c => c.operate env O result o place := by
  obtain ⟨desc, taken, rest, mem, empty, stack, le, is, demands⟩ := empty
  refine left_simulates taken sound live rfl stack le is fun f _ grows ticks c st at' => ?_
  have reads := at'.stack
  rw [inner_of_append stack le] at reads
  obtain ⟨xs, below, first, -, same⟩ := readAll_append_eq_some.1 reads
  obtain ⟨ty, token, index, args, pushes, demand⟩ := demands xs below (readAll_length first)
  have traps :
      c.operate env O result o place = .ended (.trapped .tableOutOfBounds place) c.history := by
    rw [performs]
    simp [Wasm.State.perform, same, demand, Outside.meet, Outside.ask, hollow desc mem empty]
  rw [traps]
  exact trap_agrees sound live at' srcloc grows

/-- Operands of the given types are there for a branch. -/
def Offered (s : Builder) (types : List Ty) : Prop :=
  ∃ taken rest, s.stack = taken ++ rest ∧ s.base ≤ rest.length ∧
    types.reverse = taken.map fun v => .num (s.func.valueTy v)

section
variable {ty : Option ValType}

variable (offered : Offered s (ty.map Ty.num).toList)
include offered

theorem Offered.top {t : ValType} (is : ty = some t) :
    ∃ w rest, s.stack = w :: rest ∧ s.base ≤ rest.length ∧ s.func.valueTy w = t := by
  subst is
  obtain ⟨taken, rest, stack, le, are⟩ := offered
  match taken, are with
  | [w], are =>
    refine ⟨w, rest, stack, le, ?_⟩
    simpa using are.symm

theorem Offered.offers : Offers s ty := by
  intro w rest is stack
  obtain ⟨t, is⟩ := Option.isSome_iff_exists.1 is
  obtain ⟨w', rest', stack', le, -⟩ := offered.top is
  rw [stack] at stack'
  cases stack'
  exact le

theorem Offered.yields (sound : s.Sound) (peeked : Peeked s ty r) : Yields s.func ty r := by
  rcases peeked with ⟨rfl, rfl⟩ | ⟨t, w, rest, rfl, rfl, stack⟩
  · rfl
  · obtain ⟨w', rest', stack', -, typed⟩ := offered.top rfl
    rw [stack] at stack'
    cases stack'
    exact ⟨w, rfl, sound.stack w (by rw [stack]; exact mem_cons_self), typed⟩

end

theorem Peeked.based {ty : Option ValType} (peeked : Peeked s ty r) (offers : Offers s ty)
    (tracks : Tracks k s)
    (stack : s.stack = r.toList ++ rest) : s.base ≤ rest.length := by
  cases r with
  | none => rw [← show s.stack = rest from stack]; exact tracks.based
  | some w => exact offers w rest (by rw [← peeked.isSome]; rfl) stack

/-! ### Branches -/

theorem label_ok (h : Check.label depth k = .ok (types, k')) :
    k' = k ∧ ∃ sc, k.scopes[depth]? = some sc ∧
      types = if sc.opened = .loop then sc.ty.params else sc.ty.results := by
  unfold Check.label at h
  rw [bind_apply _ get_apply] at h
  cases scopes : k.scopes with
  | nil => simp only [scopes] at h; cases h
  | cons sc outer =>
    simp only [scopes] at h
    cases at' : (sc :: outer)[depth]? with
    | none => simp only [at'] at h; cases h
    | some frame => simp only [at'] at h; cases h; exact ⟨rfl, frame, rfl, rfl⟩

theorem Tracks.offered (tracks : Tracks k s) (h : Check.popAll types k = .ok ((), k')) :
    Offered s types := by
  obtain ⟨taken, rest, stack, le, are, -⟩ := tracks.popAll h
  exact ⟨taken, rest, stack, le, are⟩

/-- Control goes elsewhere, and what follows is dead. -/
theorem Branched.simulates {ts : List Build.Target} {x : Option Nat}
    (branched : Branched s s' b exit ts x)
    (agrees : ∀ f : Function, f.Sound → s'.func.Grows f → ∀ ticks c st, At f s c st →
      Agrees f O s.func.values.size s' ticks st c.history
        (code ticks c)) : Simulates O k' s s' code := by
  refine ⟨branched.sound, branched.evolves, ?_, fun _ live => ?_, agrees⟩
  · rw [Builder.lower, Builder.lower, branched.stack, branched.evolves.base]
  · rw [branched.dead] at live
    cases live

/-- What is taken is put back. -/
theorem Tracks.putBack {taken : List Value} {k₁ : Checker} (tracks : Tracks k s)
    (stack : s.stack = taken ++ rest) (same : k.Restacks k₁)
    (after : Tracks k₁ { s with stack := rest }) :
    Tracks { k₁ with operands := k₁.operands ++ (taken.map s.func.operand).reverse.toArray } s := by
  have again := tracks.later (k₁.operands ++ (taken.map s.func.operand).reverse.toArray) s
    (.same rfl rfl rfl) ?_ tracks.based
  · rw [same]
    exact again
  · have below : k₁.operands.toList.reverse = rest.map s.func.operand := after.operands
    simp [stack, below]

theorem forM_pushOperand (operands : List Operand) (k : Checker) :
    operands.forM Check.pushOperand k =
      .ok ((), { k with operands := k.operands ++ operands.toArray }) := by
  induction operands generalizing k with
  | nil => simp [List.forM]
  | cons o rest ih =>
    refine (bind_apply _ (t := { k with operands := k.operands.push o }) rfl).trans ?_
    rw [ih]
    simp

/-- A look at operands leaves them where they are. -/
theorem Tracks.probe (tracks : Tracks k s) (h : Check.probe types k = .ok ((), k')) :
    Offered s types ∧ k.Restacks k' ∧ Tracks k' s := by
  obtain ⟨operands, k₁, popped, pushed⟩ := bind_ok h
  have taken : ∃ taken rest, s.stack = taken ++ rest ∧ s.base ≤ rest.length ∧
      types.reverse = taken.map (fun v => .num (s.func.valueTy v)) ∧
      operands = taken.map s.func.operand ∧ k.Restacks k₁ ∧ Tracks k₁ { s with stack := rest } := by
    clear h pushed
    generalize types.reverse = types' at popped
    induction types' generalizing k s operands with
    | nil => cases popped; exact ⟨[], s.stack, rfl, tracks.based, rfl, rfl, rfl, tracks⟩
    | cons ty more ih =>
      rw [mapM_cons] at popped
      obtain ⟨o, k₂, one, popped⟩ := bind_ok popped
      obtain ⟨v, rest, stack, le, rfl, is, same, after⟩ := tracks.popTy one
      obtain ⟨os, k₃, others, last⟩ := bind_ok popped
      cases last
      obtain ⟨taken, rest', stack', le', are, rfl, same', after'⟩ := ih after os others
      refine ⟨v :: taken, rest', ?_, le', by rw [is, are]; rfl, rfl, same.trans same', after'⟩
      rw [stack, show rest = taken ++ rest' from stack']
      rfl
  obtain ⟨taken, rest, stack, le, are, rfl, same, after⟩ := taken
  rw [forM_pushOperand] at pushed
  cases pushed
  refine ⟨⟨taken, rest, stack, le, are⟩, same.trans rfl, ?_⟩
  exact tracks.putBack stack same after

/-! ### Operator by operator -/

section
variable (tracks : Tracks k s) (sound : s.Sound)
include tracks sound

theorem nop_simulates : Simulates O k s s fun _ c => c.operate env O result .nop place :=
  simulates_silent sound (.same rfl rfl rfl) rfl tracks fun _ c _ at' => ⟨c, fun _ => rfl, at', rfl⟩

/-- The types of the locals are known to both. -/
theorem Tracks.localTy (known : k.locals[index]? = some ty) (there : s.locals[index]? = some v) :
    ty = .num (s.func.valueTy v) := by
  have types := sound.locals.ty index v there
  have same := congrArg (·[index]?) tracks.locals
  simp only [getElem?_toList, known, List.getElem?_map, types] at same
  simpa using same

/-- A local is bound to another value of its type. -/
theorem setLocal_fits {v : Nat} (known : k.locals[index]? = some ty)
    (is : ty = .num (s.func.valueTy v))
    (lt : v < s.func.values.size) : Fits s.func s.localTypes (s.locals.setIfInBounds index v) := by
  refine sound.locals.set lt ?_
  have same := congrArg (·[index]?) tracks.locals
  simp only [getElem?_toList, known, List.getElem?_map, is] at same
  obtain ⟨t, at', same⟩ := Option.map_eq_some_iff.1 same.symm
  cases same
  exact at'

theorem Tracks.branchable {sc : Scope} (scope : k.scopes[depth]? = some sc)
    (offered : Offered s (if sc.opened = .loop then sc.ty.params else sc.ty.results)) :
    Branchable s depth := by
  have marks (fr : Frame) (at' : s.control[depth]? = some fr) : Marks s.func.sig sc fr := by
    obtain ⟨sc', scope', marks⟩ := tracks.frames depth fr at'
    rw [scope] at scope'
    cases scope'
    exact marks
  have offered' (fr : Frame) (at' : s.control[depth]? = some fr) (forward : fr.Forward) :
      Offered s (fr.result.map Ty.num).toList := by
    have marks := marks fr at'
    have other : sc.opened ≠ .loop := by
      have kind := marks.kind
      unfold Frame.Marked at kind
      split at kind
      · rw [kind.1]; exact nofun
      · rw [kind]; exact nofun
      · next is => exact absurd is (forward _)
      · rw [kind]; split <;> exact nofun
    rw [if_neg other, marks.results] at offered
    exact offered
  refine ⟨fun b fr r _ at' forward peeked => (offered' fr at' forward).yields sound peeked,
    fun fr at' forward => (offered' fr at' forward).offers, fun fr at' is => ?_⟩
  have kind := (marks fr at').kind
  rw [Frame.Marked, is] at kind
  exact kind.2

theorem brTable_branchable {depths : List Nat}
    (checked : (depths.forM fun depth => do
      let other ← Check.label depth
      Check.demand (other.length = types.length)
        "br_table target labels have different number of types"
      Check.probe other : Check Unit) k = .ok ((), k')) :
    (∀ depth ∈ depths, Branchable s depth) ∧ Tracks k' s ∧ k.Restacks k' := by
  induction depths generalizing k with
  | nil => cases checked; exact ⟨nofun, tracks, rfl⟩
  | cons depth more ih =>
    obtain ⟨_, k₁, one, others⟩ := bind_ok checked
    obtain ⟨other, k₂, labelled, rest⟩ := bind_ok one
    obtain ⟨rfl, sc, scope, rfl⟩ := label_ok labelled
    obtain ⟨-, probed⟩ := demand_ok rest
    obtain ⟨offered, same, tracks'⟩ := tracks.probe probed
    obtain ⟨able, last, same'⟩ := ih tracks' others
    refine ⟨fun d mem => ?_, last, same.trans same'⟩
    rcases mem_cons.1 mem with rfl | mem
    · exact tracks.branchable sound scope offered
    · exact able d mem

variable (live : s.current = some b)
include live

theorem drop_simulates (goes : CheckedAndBuilt env .drop k k' s s') : Simulates O k' s s' fun _ c =>
    c.operate env O result .drop place := by
  obtain ⟨_, k₁, popped, last⟩ := bind_ok goes.checked
  cases last
  obtain ⟨v, rest, stack, le, -, -, after⟩ := tracks.popAny popped
  have last := after_pop stack (goes.live live)
  cases last
  refine simulates_silent (sound.pop stack) (.same rfl rfl rfl) (lower_eq [_] [] stack rfl rfl le)
    after fun f c st at' => ?_
  obtain ⟨x, below, top, -, popped⟩ := at'.popped stack le
  refine ⟨{ c with stack := below }, fun _ => ?_, popped, rfl⟩
  simp [Wasm.State.operate, Wasm.State.perform, top, Operator.demand, Outside.meet]

theorem localGet_simulates (goes : CheckedAndBuilt env (.localGet index) k k' s s') :
    Simulates O k' s s' fun _ c => c.operate env O result (.localGet index) place := by
  obtain ⟨ty, k₁, known, more⟩ := bind_ok goes.checked
  obtain ⟨rfl, known⟩ := localAt_ok known
  obtain ⟨-, pushed⟩ := demand_ok (after_get more :)
  have built := goes.live live
  rw [Build.live, bind_apply _ get_apply] at built
  cases there : s.locals[index]? with
  | none => simp only [there] at built; cases built
  | some v =>
    simp only [there] at built
    cases built
    obtain rfl := tracks.localTy sound known there
    cases pushed
    have bound : ∀ w : Nat, w ∈ v :: s.stack → w < s.func.values.size := fun w mem => by
      rcases mem_cons.1 mem with rfl | mem
      · exact sound.locals.lt w (Array.mem_of_getElem? there)
      · exact sound.stack w mem
    refine simulates_silent { sound with stack := bound } (.same rfl rfl rfl)
      (lower_eq [] [v] rfl rfl rfl tracks.based) tracks.push fun f c st at' => ?_
    have read : f.read st.vals v = c.locals[index]? :=
      readAll_getElem? at'.locals (by rw [getElem?_toList]; exact there)
    obtain ⟨x, at''⟩ : ∃ x, c.locals[index]? = some x := by
      exact ⟨_, List.getElem?_eq_getElem (at'.local_lt (Array.getElem?_eq_some_iff.1 there).1)⟩
    refine ⟨{ c with stack := x :: c.stack }, fun _ => by simp [Wasm.State.operate, at''],
      { at' with stack := ?_ }, rfl⟩
    have inner : Builder.inner { s with stack := v :: s.stack } = [v] ++ s.inner :=
      inner_on rfl rfl tracks.based
    rw [inner]
    exact readAll_cons_eq_some.2 ⟨x, c.stack, read.trans at'', at'.stack, rfl⟩

theorem localSet_simulates (goes : CheckedAndBuilt env (.localSet index) k k' s s') :
    Simulates O k' s s' fun _ c => c.operate env O result (.localSet index) place := by
  obtain ⟨ty, k₁, known, more⟩ := bind_ok goes.checked
  obtain ⟨rfl, known⟩ := localAt_ok known
  obtain ⟨_, k₂, popped, assigned⟩ := bind_ok more
  obtain ⟨v, rest, stack, le, rfl, -, after⟩ := tracks.pop popped
  obtain rfl := assign_ok assigned
  obtain ⟨inside, rfl⟩ := setLocal_ok (after_pop stack (goes.live live))
  have lt := sound.stack _ (by rw [stack]; exact mem_cons_self)
  have fits := setLocal_fits tracks sound known rfl lt
  refine simulates_silent { sound with locals := fits, stack := (sound.pop stack).stack }
    (.same rfl rfl rfl) (lower_eq [_] [] stack rfl rfl le) after.rebind
    fun f c st at' => ?_
  obtain ⟨x, below, top, read, popped⟩ := at'.popped stack le
  refine ⟨_, fun _ => ?_, popped.setLocal read, rfl⟩
  simp [Wasm.State.operate, top, at'.local_lt inside]

theorem localTee_simulates (goes : CheckedAndBuilt env (.localTee index) k k' s s') :
    Simulates O k' s s' fun _ c => c.operate env O result (.localTee index) place := by
  obtain ⟨ty, k₁, known, more⟩ := bind_ok goes.checked
  obtain ⟨rfl, known⟩ := localAt_ok known
  obtain ⟨_, k₂, popped, more'⟩ := bind_ok more
  obtain ⟨v, rest, stack, le, rfl, -, after⟩ := tracks.pop popped
  obtain ⟨_, k₃, assigned, pushed⟩ := bind_ok more'
  obtain rfl := assign_ok assigned
  cases pushed
  obtain ⟨w, t, peeked, last⟩ := bind_ok (goes.live live)
  obtain ⟨⟨rest', stack'⟩, rfl⟩ := Build.peek_ok peeked
  obtain ⟨rfl, rfl⟩ : v = w ∧ rest = rest' := by
    rw [stack] at stack'
    cases stack'
    exact ⟨rfl, rfl⟩
  obtain ⟨inside, rfl⟩ := setLocal_ok last
  have lt := sound.stack _ (by rw [stack]; exact mem_cons_self)
  have fits := setLocal_fits tracks sound known rfl lt
  have again := after.push (v := v)
  simp only [← stack] at again
  refine simulates_silent { sound with locals := fits }
    (.same rfl rfl rfl) (lower_eq [] [] rfl rfl rfl tracks.based) again.rebind
    fun f c st at' => ?_
  obtain ⟨x, below, top, read, popped⟩ := at'.popped stack le
  refine ⟨_, fun _ => ?_, at'.setLocal read, rfl⟩
  simp [Wasm.State.operate, top, at'.local_lt inside]

theorem unreachable_simulates (srcloc : s.srcloc = place % UInt32.size)
    (goes : CheckedAndBuilt env .unreachable k k' s s') :
    Simulates O k' s s' fun _ c => c.operate env O result .unreachable place := by
  obtain ⟨_, t, left, last⟩ := bind_ok (goes.live live)
  rw [Build.leave_apply live] at left
  cases left
  cases last
  exact left_simulates [] sound live rfl rfl tracks.based rfl fun f _ grows ticks c st at' =>
    trap_agrees sound live at' srcloc grows

/-- The function returns. -/
theorem returned_simulates (offers : Offers s s.func.sig.result)
    (built : Build.ret s = .ok ((), s')) :
    Simulates O k' s s' fun _ c => c.returned s.func.sig.result := by
  obtain ⟨r, rest, peeked, stack, is⟩ := ret_ok live built
  have le := peeked.based offers tracks stack
  refine left_simulates r.toList sound live rfl stack le is fun f _ grows ticks c st at' => ?_
  obtain ⟨x, returned, reaches⟩ := ret_reaches (O := O) sound live at' peeked offers grows
  rw [returned]
  exact reaches

theorem br_simulates (goes : CheckedAndBuilt env (.br depth) k k' s s') :
    Simulates O k' s s' fun _ c => c.operate env O result (.br depth) place := by
  have built := goes.live live
  obtain ⟨types, k₁, labelled, more⟩ := bind_ok goes.checked
  obtain ⟨rfl, sc, scope, rfl⟩ := label_ok labelled
  obtain ⟨_, k₂, popped, -⟩ := bind_ok more
  have able := tracks.branchable sound scope (tracks.offered popped)
  obtain ⟨fr, at', ⟨kind, returns⟩ | ⟨d, t, -, -, branched⟩⟩ :=
    branch_ok sound live able.topped built
  · obtain ⟨r, rest, peeked, stack, is⟩ := ret_ok live returns
    have offers := able.offers fr at' fun h is => by rw [kind] at is; cases is
    rw [able.result fr at' kind] at offers
    exact left_simulates r.toList sound live rfl stack (peeked.based offers tracks stack) is
      fun f sound' grows ticks c st at' =>
        branch_agrees sound live at' able built sound' (is ▸ grows)
  · exact branched.simulates fun f sound' grows ticks c st at' =>
      branch_agrees sound live at' able built sound' grows

theorem ret_simulates (is : result = s.func.sig.result)
    (goes : CheckedAndBuilt env .ret k k' s s') :
    Simulates O k' s s' fun _ c => c.operate env O result .ret place := by
  subst is
  obtain ⟨types, k₁, own, more⟩ := bind_ok goes.checked
  obtain ⟨_, k₂, popped, -⟩ := bind_ok more
  unfold Check.results at own
  rw [bind_apply _ get_apply] at own
  cases last : k.scopes.getLast? with
  | none => simp only [last] at own; cases own
  | some sc =>
    simp only [last] at own
    cases own
    have offered := tracks.offered popped
    rw [tracks.whole sc last] at offered
    exact returned_simulates tracks sound live offered.offers (goes.live live)

theorem brIf_simulates (goes : CheckedAndBuilt env (.brIf depth) k k' s s') :
    Simulates O k' s s' fun _ c => c.operate env O result (.brIf depth) place := by
  have built := goes.live live
  obtain ⟨_, k₁, condition, more⟩ := bind_ok goes.checked
  obtain ⟨cond, rest, stack, le, -, -, tracks₁⟩ := tracks.pop condition
  obtain ⟨types, k₂, labelled, more'⟩ := bind_ok more
  obtain ⟨rfl, sc, scope, rfl⟩ := label_ok labelled
  obtain ⟨_, k₃, popped, pushed⟩ := bind_ok more'
  have fewer := sound.pop stack
  have able := tracks₁.branchable fewer scope (tracks₁.offered popped)
  have tracks' : Tracks k' { s with stack := rest } := by
    obtain ⟨taken, below, stack', -, are, same, after⟩ := tracks₁.popAll popped
    rw [Check.pushAll_apply] at pushed
    cases pushed
    have known : (if sc.opened = .loop then sc.ty.params else sc.ty.results).map Operand.known =
        (taken.map s.func.operand).reverse := by
      rw [← List.reverse_reverse (if sc.opened = .loop then sc.ty.params else sc.ty.results), are]
      simp [Function.operand]
    rw [known]
    exact tracks₁.putBack stack' same after
  obtain ⟨t₀, next, d, t, x, t₁, padded, spare, unused, -, branched, rfl⟩ :=
    branchIf_ok sound live stack able.topped built
  have live₀ : t₀.current = some b := by rw [padded.same]; exact live
  have ne : next ≠ b := fun is => spare.ne_current (is ▸ live₀)
  have empty : t₁.func.block next = {} := by
    rw [branched.others next ne fun is => (unused next is).2 rfl, spare.empty]
  have sound' : ({ t₁ with current := some next } : Builder).Sound :=
    branched.sound.enter (by rw [branched.size]; exact spare.lt) (by rw [empty])
  have evolves₁ := padded.evolves.trans padded.sound.func branched.sound.func
    branched.evolves
  have evolves : ({ s with stack := rest } : Builder).Evolves { t₁ with current := some next } :=
    { evolves₁ with }
  have same : t₁.stack = rest := by rw [branched.stack, padded.same]
  refine ⟨sound', evolves.popped, lower_eq [cond] [] stack same evolves.base le, fun _ _ => ?_,
    fun f sound'' grows ticks c st at' =>
      branchIf_agrees sound live at' stack le able built sound'' grows⟩
  refine tracks'.later k'.operands _ evolves ?_ (by rw [show _ = rest from same]; exact le)
  rw [show ({ t₁ with current := some next } : Builder).stack = rest from same,
    operands_grow fewer evolves.grows]
  exact tracks'.operands

theorem brTable_simulates {depths : Array Nat} {default : Nat}
    (goes : CheckedAndBuilt env (.brTable depths default) k k' s s') :
    Simulates O k' s s' fun _ c => c.operate env O result (.brTable depths default) place := by
  have built := goes.live live
  obtain ⟨_, k₁, condition, more⟩ := bind_ok goes.checked
  obtain ⟨index, rest, stack, le, -, -, tracks₁⟩ := tracks.pop condition
  obtain ⟨types, k₂, labelled, more'⟩ := bind_ok more
  obtain ⟨rfl, sc, scope, rfl⟩ := label_ok labelled
  obtain ⟨_, k₃, each, more''⟩ := bind_ok more'
  have fewer := sound.pop stack
  obtain ⟨able, tracks₃, same⟩ := brTable_branchable tracks₁ fewer each
  obtain ⟨_, k₄, popped, -⟩ := bind_ok more''
  have last := tracks₁.branchable fewer scope (tracks₃.offered popped)
  have able (depth : Nat) (mem : depth ∈ depths.toList ++ [default]) :
      Branchable { s with stack := rest } depth := by
    rcases List.mem_append.1 mem with mem | mem
    · exact able depth mem
    · rw [List.mem_singleton.1 mem]; exact last
  obtain ⟨t₀, edges, d, t, x, padded, unused, decided, branched⟩ :=
    branchTable_ok sound live stack (fun depth mem => (able depth mem).topped) built
  have evolves := padded.evolves.trans padded.sound.func branched.sound.func
    branched.evolves
  have same : s'.stack = rest := by rw [branched.stack, padded.same]
  refine ⟨branched.sound, evolves.popped, lower_eq [index] [] stack same evolves.base le,
    fun _ live => ?_,
    fun f sound'' grows ticks c st at' =>
      branchTable_agrees sound live at' stack le able built sound'' grows⟩
  rw [branched.dead] at live
  cases live

/-- Every operator in live code that neither opens nor ends a block. -/
theorem live_simulates (plain : o.isPlain) (describes : k.ctx.Describes env) (hollow : Hollow env O)
    (srcloc : s.srcloc = place % UInt32.size) (is : result = s.func.sig.result)
    (goes : CheckedAndBuilt env o k k' s s') :
    Simulates O k' s s' fun _ c => c.operate env O result o place := by
  by_cases simple : computes o = true
  · refine (operator_emits tracks sound live simple describes goes).simulates sound live srcloc
      fun c => ?_
    cases o <;> first | rfl | cases simple
  · cases o with
    | block | loop | ifBlock | elseArm | close => cases plain
    | unreachable => exact unreachable_simulates tracks sound live srcloc goes
    | nop =>
      cases goes.checked
      cases goes.live live
      exact nop_simulates tracks sound
    | br depth => exact br_simulates tracks sound live goes
    | brIf depth => exact brIf_simulates tracks sound live goes
    | brTable depths default => exact brTable_simulates tracks sound live goes
    | ret => exact ret_simulates tracks sound live is goes
    | callIndirect ty table =>
      rcases callIndirect_emits tracks sound live describes goes with emits | empty
      · exact emits.simulates sound live srcloc fun _ => rfl
      · exact empty.simulates hollow sound live srcloc fun _ => rfl
    | drop => exact drop_simulates tracks sound live goes
    | localGet index => exact localGet_simulates tracks sound live goes
    | localSet index => exact localSet_simulates tracks sound live goes
    | localTee index => exact localTee_simulates tracks sound live goes
    | extra name what => cases goes.live live
    | _ => exact absurd rfl simple

end

end
end Wasmill.Ssa

import Wasmill.Ssa.Compile
import Wasmill.Proofs.Ssa.Building
import Wasmill.Proofs.Wasm.Shape

/-! Operators one after another.

A body is compiled operator by operator, up to the end of the function. In dead code, frames are
opened and dropped and nothing else happens. -/
namespace Wasmill.Ssa
open Wasm Steps
variable {env : Env} {rest : List Placed} {t : Tree}

namespace Build
variable {first : List Placed}

/-- Operators one after another. -/
def each (env : Env) (ops : List Placed) : Build Unit :=
  ops.forM fun (o, place) => do
    setSrcloc place
    operator env o

/-- The state in which the operator at a place is compiled. -/
def placed (s : Builder) (place : Nat) : Builder := { s with srcloc := place % UInt32.size }

section
variable {env : Env} {o stop : Operator} {place stopPlace : Nat} {body rest : List Placed}
  {s s' : Builder}

theorem each_cons_ok (h : each env ((o, place) :: rest) s = .ok ((), s')) :
    ∃ t, operator env o (placed s place) = .ok ((), t) ∧ each env rest t = .ok ((), s') := by
  obtain ⟨_, t, first, h⟩ := bind_ok h
  exact ⟨t, (bind_apply _ (modify_apply _)).symm.trans first, h⟩

theorem each_append_ok (h : each env (first ++ rest) s = .ok ((), s')) :
    ∃ t, each env first s = .ok ((), t) ∧ each env rest t = .ok ((), s') := forM_append_ok h

/-- A block in the code: what opens it, its inside, and what ends it. -/
theorem each_block_ok
    (h : each env ((o, place) :: (body ++ (stop, stopPlace) :: rest)) s = .ok ((), s')) :
    ∃ t₁ t₂ t₃, operator env o (placed s place) = .ok ((), t₁) ∧ each env body t₁ = .ok ((), t₂) ∧
      operator env stop (placed t₂ stopPlace) = .ok ((), t₃) ∧ each env rest t₃ = .ok ((), s') := by
  obtain ⟨t₁, first, h⟩ := each_cons_ok h
  obtain ⟨t₂, inside, h⟩ := each_append_ok h
  obtain ⟨t₃, last, h⟩ := each_cons_ok h
  exact ⟨t₁, t₂, t₃, first, inside, last, h⟩

end

/-! ### Dead code -/

/-- Frames as dead code opens them. -/
def deadKind (kind : FrameKind) : Prop :=
  kind = .block ∨ kind = .loop none ∨ ∃ locals, kind = .ifBlock none locals

section
variable {env : Env} {o : Operator} {place : Nat} {s s' : Builder} {kind : FrameKind}
  {outer : List Frame}

theorem operator_dead (dead' : s.current = none) : operator env o s = dead o s := by
  rw [operator, bind_apply _ isDead_apply, dead']
  rfl

theorem truncate_self : truncate s.stack.length s = .ok ((), s) := by
  rw [truncate, modify_apply, Nat.sub_self]
  rfl

/-- The end of a frame that was opened in dead code. -/
theorem close_dead (kinds : deadKind kind) (dead' : s.current = none)
    (control : s.control = ⟨kind, none, s.stack.length, #[]⟩ :: outer) :
    close s = .ok ((), { s with control := outer }) := by
  have ends : (do
      let value ← if ← isDead then pure none else popResult none
      truncate s.stack.length
      pushAll value : Build Unit) { s with control :=
        outer } = .ok ((), { s with control := outer }) := by
    rw [bind_apply _ isDead_apply, if_pos (by rw [dead']; rfl), bind_apply _ (pure_apply _)]
    exact bind_apply _ (truncate_self (s := { s with control := outer }))
  rw [close, bind_apply _ get_apply]
  simp only [control]
  rcases kinds with rfl | rfl | ⟨locals, rfl⟩ <;> exact (bind_apply _ set_apply).trans ends

theorem elseArm_dead {locals : Array Value} (dead' : s.current = none)
    (control : s.control = ⟨.ifBlock none locals, none, s.stack.length, #[]⟩ :: outer) :
    elseArm s = .ok ((), s) := by
  have leaves : leaveFrame none s = .ok (none, s) := by
    rw [leaveFrame, bind_apply _ isDead_apply, if_pos (by rw [dead']; rfl)]
    rfl
  rw [elseArm, bind_apply _ get_apply]
  simp only [control]
  rw [bind_apply _ leaves]
  exact bind_apply _ truncate_self

theorem each_cons (h : operator env o (placed s place) = .ok ((), s')) :
    each env ((o, place) :: rest) s = each env rest s' := by
  refine bind_apply (a := ⟨⟩) (fun _ => each env rest) ?_
  exact (bind_apply _ (show setSrcloc place s = _ from modify_apply _)).trans h

theorem each_append (h : each env first s = .ok ((), s')) :
    each env (first ++ rest) s = each env rest s' :=
  (congrFun List.forM_append s).trans (bind_apply (a := ⟨⟩) (fun _ => each env rest) h)

end
end Build

/-- A frame as dead code opens it. -/
def Builder.opened (s : Builder) (kind : FrameKind) (loc : Nat) : Builder :=
  { s with srcloc := loc, control := ⟨kind, none, s.stack.length, #[]⟩ :: s.control }

/-- A block in dead code is passed over. -/
theorem dead_block {o : Operator} {kind : FrameKind} {place close : Nat} {body : List Placed}
    {s : Builder}
    (opens : Build.dead o = Build.openFrame kind none) (kinds : Build.deadKind kind)
    (dead : s.current = none)
    (inside : ∃ loc, Build.each env body (s.opened kind (place % UInt32.size)) = .ok
      ((), s.opened kind loc)) :
    Build.each env ((o, place) :: (body ++ (.close, close) :: rest)) s = Build.each env rest
      (Build.placed s close) := by
  have first :
      Build.operator env o (Build.placed s place) = .ok ((), s.opened kind (place % UInt32.size)) := by
    rw [Build.operator_dead (s := Build.placed s place) dead, opens]
    rfl
  obtain ⟨loc, run⟩ := inside
  rw [Build.each_cons first, Build.each_append run]
  refine Build.each_cons ?_
  rw [Build.operator_dead (s := Build.placed (s.opened kind loc) close) dead]
  exact Build.close_dead (s := Build.placed (s.opened kind loc) close) kinds dead rfl

/-- Dead code is passed over, and leaves everything as it was. -/
theorem dead_run (plain : t.Plain) (env : Env) {s : Builder} (dead : s.current = none) :
    ∃ loc, Build.each env t.ops s = .ok ((), { s with srcloc := loc }) := by
  induction t generalizing s with
  | done => exact ⟨s.srcloc, rfl⟩
  | op o place rest ih =>
    have one : Build.operator env o (Build.placed s place) = .ok ((), Build.placed s place) := by
      rw [Build.operator_dead (s := Build.placed s place) dead]
      have flat := plain.1
      cases o <;> first | rfl | cases flat
    rw [Tree.ops, Build.each_cons one]
    exact ih plain.2 (s := Build.placed s place) dead
  | block ty place body close rest ihBody ihRest =>
    rw [Tree.ops, dead_block rfl (.inl rfl) dead (ihBody plain.1 (s := s.opened .block _) dead)]
    exact ihRest plain.2 (s := Build.placed s close) dead
  | loop ty place body close rest ihBody ihRest =>
    rw [Tree.ops,
      dead_block rfl (.inr (.inl rfl)) dead (ihBody plain.1 (s := s.opened (.loop none) _) dead)]
    exact ihRest plain.2 (s := Build.placed s close) dead
  | ifThen ty place arm close rest ihArm ihRest =>
    rw [Tree.ops, dead_block rfl (.inr (.inr ⟨_, rfl⟩)) dead
      (ihArm plain.1 (s := s.opened (.ifBlock none #[]) _) dead)]
    exact ihRest plain.2 (s := Build.placed s close) dead
  | ifElse ty place arm middle other close rest ihArm ihOther ihRest =>
    let opened := s.opened (.ifBlock none #[])
    have arms : ∃ loc, Build.each env (arm.ops ++ (.elseArm, middle) :: other.ops)
        (opened (place % UInt32.size)) =
        .ok ((), opened loc) := by
      obtain ⟨loc, run⟩ : ∃ loc, Build.each env arm.ops (opened (place % UInt32.size)) = .ok
        ((), opened loc) := ihArm plain.1 dead
      have second : Build.operator env .elseArm (Build.placed (opened loc) middle) = .ok
          ((), opened (middle % UInt32.size)) := by
        rw [Build.operator_dead (s := Build.placed (opened loc) middle) dead]
        exact Build.elseArm_dead (s := Build.placed (opened loc) middle) dead rfl
      rw [Build.each_append run, Build.each_cons second]
      exact ihOther plain.2.1 (s := opened (middle % UInt32.size)) dead
    have passed :
        Build.each env
        ((.ifBlock ty, place) ::
          (arm.ops ++ (.elseArm, middle) :: other.ops ++ (.close, close) :: rest.ops)) s =
        Build.each env rest.ops (Build.placed s close) :=
          dead_block rfl (.inr (.inr ⟨_, rfl⟩)) dead arms
    rw [List.append_assoc, List.cons_append] at passed
    rw [Tree.ops, passed]
    exact ihRest plain.2.2 (s := Build.placed s close) dead

theorem dead_each (plain : t.Plain) {s s' : Builder} (dead : s.current = none)
    (h : Build.each env t.ops s = .ok ((), s')) : ∃ loc, s' = { s with srcloc := loc } := by
  obtain ⟨loc, run⟩ := dead_run plain env dead
  rw [run] at h
  cases h
  exact ⟨loc, rfl⟩

/-! ### Bodies -/

/-- The operators that stand from a place of a body to its end. -/
def Listed : Cursor → List Placed → Prop
  | c, [] => c.atEnd
  | c, (o, place) :: ops =>
    place = c.offset ∧ ∃ next, Operator.read c = (.ok o, next) ∧ Listed next ops

/-- The frames that are open, `n` of them, end with the last operator and not before. -/
def Closing : (n : Nat) → List Operator → Prop
  | n, [] => n = 0
  | n, o :: ops => 0 < n ∧ Closing (n + o.rises - o.falls) ops

/-- Where compiling a function starts. -/
def Builder.ofSig (sig : Sig) (place : Nat) : Builder :=
  { func := { Function.ofSig sig with srcloc := place }, current := some 0, srcloc := place,
    locals := #[], localTypes := #[]
    stack := [], control := [] }

/-- What is compiled before the code of a function: its locals, and a check for interrupts. -/
def entry (env : Env) (sig : Sig) (place : Nat) (runs : List (Nat × ValType)) :
    Except Error (Unit × Builder) :=
  (do
    Build.declareLocals env.limits runs
    Build.interruptCheck env.interruptMode
    Build.pushFrame { kind := .function, result := sig.result, base := 0 } : Build Unit)
    (.ofSig sig place)

/-- A function is compiled up to its end, which is that of the body. -/
theorem ofBody_eq {sig : Sig} {body : Body} {runs : Array (Nat × ValType)} {c : Cursor}
    (read : Body.localRuns body.start = (.ok runs, c)) :
    Function.ofBody env sig body = (do
      let (_, s₀) ← entry env sig (body.offset % UInt32.size) runs.toList
      let (body', s) ← Build.operators env (body.start.left + 1) { body with ops := some c } s₀
      if body'.isDone then return s.func
        else throw (.invalid .operatorsAfterEnd body'.offset)) := by
  unfold Function.ofBody
  simp only [Body.readLocals, read]
  have grouped (x y z : Build Unit) (rest : Build Body) :
      (do x; y; z; rest) = (do x; y; z) >>= fun _ => rest := by simp only [bind_assoc]
  exact (congrArg (· >>= _) (congrFun (grouped ..) _)).trans (bind_assoc _ _ _)

end Wasmill.Ssa

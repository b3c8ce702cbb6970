import Wasmill.Proofs.Wasm.Checking

/-! The nesting of checked code.

Code that passes the checks is a tree: every block in it is closed, and an `else` stands in the
first arm of an `if` only. -/
namespace Wasmill.Wasm
open Steps List Check

/-- The operators that are left in a frame, which is closed by the end of them. -/
structure Unfinished (k k' : Checker) (ops : List Placed) (opened : Opened)
    (depth : Nat) : Prop where
  rooted : k.Rooted
  run : Check.each ops k = .ok ((), k')
  frame : ∃ sc outer, k.scopes = sc :: outer ∧ sc.opened = opened ∧ outer.length = depth
  ends : k'.scopes.length ≤ depth

/-- The operators start with the code of a tree, which an `end` follows, or an `else` if there may
be one. -/
def Starts (ops : List Placed) (mayElse : Prop) : Prop :=
  ∃ t stop place rest, Tree.Plain t ∧ ops = t.ops ++ (stop, place) :: rest ∧
    (stop = .close ∨ stop = .elseArm ∧ mayElse)

section
variable {k k' : Checker} {o : Operator} {place : Nat} {ops rest : List Placed}
  {opened opened' : Opened}
  {ty : BlockType} {depth : Nat}

namespace Unfinished

theorem passed (left : Unfinished k k' ops opened depth) (flat : Flat ops) (t : Tree)
    (rest : List Placed) (is : ops = t.ops ++ rest) (plain : t.Plain) :
    ∃ k₁, Unfinished k₁ k' rest opened depth := by
  subst is
  obtain ⟨k₁, first, run⟩ := each_append_ok left.run
  have stays := t.stays plain flat.left left.rooted first
  obtain ⟨sc, outer, scopes, is, length⟩ := left.frame
  obtain ⟨sc', outer', u, scopes', scopes₁, -⟩ := stays.frame
  rw [scopes] at scopes'
  cases scopes'
  exact ⟨k₁, stays.rooted, run, ⟨_, _, scopes₁, is, length⟩, left.ends⟩

theorem entered (left : Unfinished k k' ((o, place) :: rest) opened depth)
    (is : Check.Opened.ofOperator o = some (opened', ty)) :
    ∃ k₁, Unfinished k₁ k' rest opened' (depth + 1) := by
  obtain ⟨k₁, first, run⟩ := each_cons_ok left.run
  obtain ⟨k₀, fty, stays, opens⟩ :=
    Check.operator_opens (k := { k with offset := place }) is left.rooted first
  obtain ⟨sc, outer, scopes, -, length⟩ := left.frame
  obtain ⟨sc', outer', u, scopes', scopes₀, -⟩ := stays.frame
  rw [show ({ k with offset := place } : Checker).scopes = k.scopes from rfl, scopes] at scopes'
  cases scopes'
  obtain ⟨assigned, scopes₁⟩ := opens.scopes
  refine ⟨k₁, opens.rooted, run, ⟨_, _, scopes₁, rfl, ?_⟩, Nat.le_succ_of_le left.ends⟩
  rw [scopes₀, length_cons, length]

/-- From the first arm of an `if` to the second. -/
theorem second (left : Unfinished k k' ((.elseArm, place) :: rest) opened depth) :
    opened = .ifArm ∧ ∃ k₁, Unfinished k₁ k' rest .elseArm depth := by
  obtain ⟨k₁, first, run⟩ := each_cons_ok left.run
  obtain ⟨frame, outer, _, k₂, scopes, _, _, is, closes, opens⟩ :=
    Check.elseArm_ok (k := { k with offset := place }) left.rooted first
  obtain ⟨sc, outer', scopes', opened, length⟩ := left.frame
  rw [show ({ k with offset := place } : Checker).scopes = k.scopes from rfl, scopes'] at scopes
  cases scopes
  obtain ⟨assigned, scopes₁⟩ := opens.scopes
  refine ⟨opened.symm.trans is, k₁, opens.rooted, run, ⟨_, _, scopes₁, rfl, ?_⟩, left.ends⟩
  rw [closes.scopes, length]

end Unfinished

/-- A block as the first part of a tree. -/
theorem exists_node (is : Check.Opened.ofOperator o = some (opened, ty)) (place : Nat) (body : Tree)
    (close : Nat) : ∃ node : Tree → Tree, ∀ rest, (node rest).ops =
      (o, place) :: (body.ops ++ (.close, close) :: rest.ops) ∧
        ((node rest).Plain ↔ body.Plain ∧ rest.Plain) := by
  cases o <;> cases is
  · exact ⟨.block ty place body close, fun _ => ⟨rfl, Iff.rfl⟩⟩
  · exact ⟨.loop ty place body close, fun _ => ⟨rfl, Iff.rfl⟩⟩
  · exact ⟨.ifThen ty place body close, fun _ => ⟨rfl, Iff.rfl⟩⟩

theorem Operator.isPlain_cases (o : Operator) :
    o.isPlain ∨ o = .close ∨ o = .elseArm ∨ ∃ opened ty, Check.Opened.ofOperator o = some
      (opened, ty) := by
  cases o <;> simp [Operator.isPlain, Check.Opened.ofOperator]

/-- The code of a frame that is closed is a tree. -/
theorem Unfinished.starts (left : Unfinished k k' ops opened depth) (flat : Flat ops) :
    Starts ops (opened = .ifArm) := by
  -- what follows an operator, a block or an arm is shorter
  induction size : ops.length using Nat.strongRecOn generalizing k ops opened depth with
  | _ n ih =>
  cases ops with
  | nil =>
    obtain ⟨sc, outer, scopes, -, length⟩ := left.frame
    cases left.run
    have ends := left.ends
    rw [scopes, length_cons, length] at ends
    exact absurd ends (Nat.not_succ_le_self depth)
  | cons p rest =>
    obtain ⟨o, place⟩ := p
    have shorter {more : List Placed} (le : more.length ≤ rest.length) : more.length < n := by
      rw [← size, length_cons]
      omega
    rcases o.isPlain_cases with plain | rfl | rfl | ⟨opened', ty, is⟩
    · obtain ⟨k₁, after⟩ := left.passed flat (.op o place .done) rest rfl ⟨plain, trivial⟩
      obtain ⟨t, stop, at', more, plain', rfl, ends⟩ :=
        ih _ (shorter (Nat.le_refl _)) after flat.tail rfl
      exact ⟨.op o place t, stop, at', more, ⟨plain, plain'⟩, rfl, ends⟩
    · exact ⟨.done, .close, place, rest, trivial, rfl, .inl rfl⟩
    · exact ⟨.done, .elseArm, place, rest, trivial, rfl, .inr ⟨rfl, left.second.1⟩⟩
    · obtain ⟨k₁, inside⟩ := left.entered is
      obtain ⟨body, stop, at', more, plain, rfl, ends⟩ :=
        ih _ (shorter (Nat.le_refl _)) inside flat.tail rfl
      rcases ends with rfl | ⟨rfl, isIf⟩
      · obtain ⟨node, made⟩ := exists_node is place body at'
        obtain ⟨k₂, after⟩ :=
          left.passed flat (node .done) more (by simp [(made .done).1, Tree.ops])
          ((made .done).2.2 ⟨plain, trivial⟩)
        obtain ⟨t, stop, at'', more', plain', rfl, ends⟩ :=
          ih _ (shorter (by simp; omega)) after flat.tail.right.tail rfl
        refine ⟨node t, stop, at'', more', (made t).2.2 ⟨plain, plain'⟩, ?_, ends⟩
        simp [(made t).1]
      · obtain ⟨k₂, arm⟩ := inside.passed flat.tail body _ rfl plain
        obtain ⟨-, k₃, other⟩ := arm.second
        obtain ⟨t, stop, close, more', plain', rfl, ends⟩ :=
          ih _ (shorter (by simp; omega)) other flat.tail.right.tail rfl
        obtain rfl : stop = .close := ends.resolve_right fun h => by cases h.2
        obtain ⟨ty', rfl⟩ : ∃ ty, o = .ifBlock ty := by
          subst isIf
          cases o <;> cases is
          exact ⟨ty, rfl⟩
        obtain ⟨k₄, after⟩ := left.passed flat (.ifElse ty' place body at' t close .done) more'
          (by simp [Tree.ops]) ⟨plain, plain', trivial⟩
        obtain ⟨t', stop, at'', more'', plain'', rfl, ends⟩ :=
          ih _ (shorter (by simp; omega)) after flat.tail.right.tail.right.tail rfl
        refine ⟨.ifElse ty' place body at' t close t', stop, at'', more'',
          ⟨plain, plain', plain''⟩, ?_, ends⟩
        simp [Tree.ops]

end

/-! ### Depth -/

/-- How many blocks an operator opens. -/
def Operator.rises (o : Operator) : Nat :=
  if (Check.Opened.ofOperator o).isSome then 1 else 0

/-- How many blocks an operator closes. -/
def Operator.falls : Operator → Nat
  | .close => 1
  | _ => 0

def Operator.handlers (o : Operator) : Nat := if Check.opensHandler o then 1 else 0

/-- Every frame starts at or above the frame around it. -/
def Checker.Layered (k : Checker) : Prop :=
  (k.operands.size :: k.scopes.map (·.height)).Pairwise (· ≥ ·)

section
variable {k k' : Checker} {sc frame : Scope} {outer : List Scope} {opened : Opened} {ty : FuncType}

theorem Checker.Layered.rooted (layered : k.Layered) (scopes : k.scopes = sc :: outer) :
    k.Rooted := by
  refine ⟨sc, outer, scopes, ?_⟩
  rw [Checker.Layered, scopes] at layered
  exact (pairwise_cons.1 layered).1 _ mem_cons_self

theorem Checker.Stays.layered (stays : k.Stays k') (layered : k.Layered) : k'.Layered := by
  obtain ⟨sc, outer, u, scopes, scopes', le, -⟩ := stays.frame
  rw [Layered, scopes] at layered
  rw [Layered, scopes']
  have inner := (pairwise_cons.1 layered).2
  refine pairwise_cons.2 ⟨fun h mem => ?_, inner⟩
  rcases mem_cons.1 mem with rfl | mem
  · exact le
  · exact Nat.le_trans ((pairwise_cons.1 inner).1 h mem) le

theorem Check.Opens.layered (opens : Opens k k' opened ty) (layered : k.Layered) : k'.Layered := by
  obtain ⟨assigned, scopes⟩ := opens.scopes
  have size := congrArg List.length opens.operands
  simp only [Array.length_toList, length_append] at size
  rw [Checker.Layered, scopes]
  refine pairwise_cons.2 ⟨fun h mem => ?_, layered⟩
  rcases mem_cons.1 mem with rfl | mem
  · exact size ▸ Nat.le_add_right _ _
  · have := (pairwise_cons.1 layered).1 h mem
    omega

theorem Check.Closes.layered {results : List Ty} (closes : Closes k k' frame outer results)
    (scopes : k.scopes = frame :: outer) (layered : k.Layered) : k'.Layered := by
  have size := congrArg List.length closes.operands
  simp only [Array.length_toList, length_append, length_take] at size
  rw [Checker.Layered, scopes] at layered
  have base : frame.height ≤ k.operands.size := (pairwise_cons.1 layered).1 _ mem_cons_self
  have inner := pairwise_cons.1 (pairwise_cons.1 layered).2
  rw [Checker.Layered, closes.scopes]
  refine pairwise_cons.2 ⟨fun h mem => ?_, inner.2⟩
  have : h ≤ frame.height := inner.1 h mem
  omega

theorem Checker.Stays.depth (stays : k.Stays k') : k'.scopes.length = k.scopes.length := by
  obtain ⟨sc, outer, u, scopes, scopes', -⟩ := stays.frame
  rw [scopes, scopes']
  rfl

theorem Check.Opens.depth (opens : Opens k k' opened ty) :
    k'.scopes.length = k.scopes.length + 1 := by
  obtain ⟨assigned, scopes⟩ := opens.scopes
  rw [scopes]
  rfl

instance {c : CatchClause} : Check.Local (Check.clause c) := by
  refine local_bind inferInstance fun _ => local_bind inferInstance fun types => ?_
  split
  · split <;> infer_instance
  · infer_instance

/-- A block with handlers. -/
theorem Check.handler_opens {name : String} {bty : BlockType} {clauses : List CatchClause}
    (rooted : k.Rooted) (h : operator (.extra name (.tryTable bty clauses)) k = .ok ((), k')) :
    ∃ k₁ ty, k.Stays k₁ ∧ Opens k₁ k' .block ty := by
  obtain ⟨fty, k₁, first, h⟩ := Local.bind_ok rooted h
  obtain ⟨_, k₂, second, h⟩ := Local.bind_ok first.rooted h
  obtain ⟨_, k₃, third, h⟩ := Local.bind_ok second.rooted h
  exact ⟨k₃, fty, (first.trans second).trans third, pushScope_opens _ _ h⟩

/-- How an operator changes the number of open blocks. -/
theorem Check.operator_depth {o : Operator} (layered : k.Layered) (scopes : k.scopes = sc :: outer)
    (h : operator o k = .ok ((), k')) :
    k'.Layered ∧ k'.scopes.length + o.falls = k.scopes.length + o.rises + o.handlers := by
  have rooted := layered.rooted scopes
  rcases o.isPlain_cases with plain | rfl | rfl | ⟨opened', ty, is⟩
  · by_cases flat : opensHandler o = true
    · obtain ⟨name, bty, clauses, rfl⟩ :
          ∃ name bty clauses, o = .extra name (.tryTable bty clauses) := by
        unfold opensHandler at flat
        split at flat
        · exact ⟨_, _, _, rfl⟩
        · cases flat
      obtain ⟨k₁, ty, stays, opens⟩ := handler_opens rooted h
      refine ⟨opens.layered (stays.layered layered), ?_⟩
      rw [opens.depth, stays.depth]
      rfl
    · have stays := (local_operator plain (by simpa using flat)).stays rooted h
      refine ⟨stays.layered layered, ?_⟩
      rw [stays.depth]
      cases o <;> simp_all [Operator.isPlain, Operator.falls, Operator.rises, Operator.handlers,
        Opened.ofOperator]
  · obtain ⟨frame, outer, k₁, scopes, -, -, closes, -⟩ := close_ok rooted h
    refine ⟨closes.layered scopes layered, ?_⟩
    rw [closes.scopes, scopes]
    rfl
  · obtain ⟨frame, outer, k₁, k₂, scopes, -, -, -, closes, opens⟩ := elseArm_ok rooted h
    refine ⟨opens.layered (closes.layered scopes layered), ?_⟩
    rw [opens.depth, closes.scopes, scopes]
    rfl
  · obtain ⟨k₁, fty, stays, opens⟩ := operator_opens is rooted h
    refine ⟨opens.layered (stays.layered layered), ?_⟩
    rw [opens.depth, stays.depth]
    cases o <;> cases is <;> rfl

end
end Wasmill.Wasm

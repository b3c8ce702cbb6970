import Wasmill.Proofs.Code.Placing

/-! Placing chunks.

A pass settles all waiting calls, and finds room for it: a chunk is placed only where the far jumps
of the next pass are sure to be in reach of every call that will then wait. A pass fails only where
a displacement or the code grows too large. Then the calls that it did not come to are lost: they
wait no more. -/
namespace Wasmill.Code
open Ssa List Steps

/-- No displacement and no offset of the code is too large, so that no pass fails. -/
def Layout.Near (l : Layout) : Prop := l.reach < 0x80000000 ∧ l.code.size < UInt32.size

/-! ### Passes -/

/-- What directing calls changes: far jumps are added, and their operands noted. -/
structure AddsFars (l l' : Layout) (pieces fars : List Piece) : Prop where
  far : ∀ p ∈ fars, ∃ callee, p = Piece.far callee
  targets : l'.thunkTargets.toList = l.thunkTargets.toList ++
    (sited (extent (linesOf pieces)) fars).filterMap farRef?
  same : l' = { l with code := l'.code, ranges := l'.ranges, thunkTargets := l'.thunkTargets }

theorem AddsFars.of_code {l l' : Layout} {pieces : List Piece}
    (same : l' = { l with code := l'.code }) : AddsFars l l' pieces [] :=
  ⟨by simp, by rw [same]; simp, by rw [same]⟩

theorem AddsFars.trans {l l' l'' : Layout} {pieces a b : List Piece} (one : AddsFars l l' pieces a)
    (two : AddsFars l' l'' (pieces ++ a) b) : AddsFars l l'' pieces (a ++ b) := by
  refine ⟨?_, ?_, ?_⟩
  · intro p mem
    exact (mem_append.1 mem).elim (one.far p) (two.far p)
  · rw [two.targets, one.targets, sited_append, filterMap_append, linesOf_append, extent_append,
      append_assoc]
  · rw [two.same, one.same]

/-- Calls of new pieces wait. -/
theorem Accounted.grow {reach : Nat} {pieces : List Piece} {filled : Nat → Option Nat}
    {waiting : List PendingCall}
    (h : Accounted reach pieces filled waiting) (new : List Piece) :
    Accounted reach (pieces ++ new) filled
      (waiting ++ (located (extent (linesOf pieces)) (linesOf new)).filterMap pendingCall?) := by
  intro o line callee bytecode mem calls
  rw [linesOf_append, located_append, Nat.zero_add] at mem
  rcases mem_append.1 mem with mem | mem
  · rcases h o line callee bytecode mem calls with wait | ⟨target, done⟩
    · exact .inl (mem_append_left _ wait)
    · exact .inr ⟨target, done.mono⟩
  · refine .inl (mem_append_right _ (mem_filterMap.2 ⟨(o, line), mem, ?_⟩))
    simp [pendingCall?, calls]

/-- The state of a pass that began with the code at `top` and `count` calls to direct. -/
structure Passing (top count : Nat) (l : Layout) (pieces : List Piece) (thunks : List (Nat × Nat))
    (rest : List PendingCall) : Prop where
  made : ∀ callee start, thunks.lookup callee = some start →
    FarJump pieces callee start ∧ top ≤ start ∧ start + thunkSize ≤ l.code.size
  below : top ≤ l.code.size
  room : l.code.size + rest.length * thunkSize ≤ top + count * thunkSize

/-- How far a pass came, when none of its calls waits any more. -/
structure PassDone (top count : Nat) (l l' : Layout) (pieces fars : List Piece)
    (filled : Nat → Option Nat) : Prop where
  directs : AddsFars l l' pieces fars
  laid : Laid l' (pieces ++ fars) filled []
  below : top ≤ l'.code.size
  room : l'.code.size ≤ top + count * thunkSize

namespace Laid
variable {l l' : Layout} {pieces : List Piece} {filled : Nat → Option Nat} {rest : List PendingCall}
  {c : PendingCall} {top count : Nat} {thunks : List (Nat × Nat)}

/-- A number can be written into every hole. -/
theorem write (h : Laid l pieces filled rest) {o k : Nat} {line : Line} (n : Nat)
    (there : (o, line) ∈ located 0 (linesOf pieces))
    (hole : k ∈ line.instr.holes) :
    ∃ code, writeU32 l.code (o + k) n = .ok code ∧ code.size = l.code.size ∧
      Laid { l with code } pieces (fun p => if p = o + k then some n else filled p) rest := by
  have ⟨_, inside⟩ := located_le there
  have ⟨_, short⟩ := Instr.hole_le hole
  have within := h.within
  simp only [Line.size] at inside
  have written : writeU32 l.code (o + k) n = .ok (overwrite l.code (o + k) (u32 n)) :=
    if_pos (by omega)
  have size := overwrite_size l.code (o + k) (u32 n)
  refine ⟨_, written, size,
    { h with code := fun small => ?_, within := ?_, fresh := fun p le => ?_ }⟩
  · obtain ⟨code, written', assembles⟩ :=
      (h.code (by rwa [size] at small)).write (n := n) there hole
    cases written.symm.trans written'
    exact assembles
  · rw [size]
    exact within
  · rw [if_neg (by omega)]
    exact h.fresh p le

section
variable (h : Laid l pieces filled (c :: rest))
  (passing : Passing top count l pieces thunks (c :: rest))
include h passing

/-- A call leads to its callee, or to a far jump that is there or is made. -/
theorem target : Leads (Laying.target thunks c) l
      (fun r l' => ∃ fars, AddsFars l l' pieces fars ∧ Laid l' (pieces ++ fars) filled (c :: rest) ∧
        Passing top count l' (pieces ++ fars) r.2 rest ∧
        (Accounted l.reach pieces filled (c :: rest) →
          Accounted l.reach (pieces ++ fars) filled (c :: rest)) ∧
        (Enters (pieces ++ fars) c.callee r.1 ∧ ((r.1 : Int) - c.offset).natAbs ≤ l.reach ∨
          FarJump (pieces ++ fars) c.callee r.1 ∧ top ≤ r.1 ∧
            r.1 + thunkSize ≤ top + count * thunkSize))
      (fun _ l' => PassDone top count l l' pieces [] filled ∧ ¬ l'.Near) := by
  have room := passing.room
  simp only [length_cons, Nat.add_mul, Nat.one_mul] at room
  have fewer : l.code.size + rest.length * thunkSize ≤ top + count * thunkSize := by omega
  have stays : Laid l (pieces ++ []) filled (c :: rest) ∧
      Passing top count l (pieces ++ []) thunks rest := by
    rw [append_nil]
    exact ⟨h, passing.made, passing.below, fewer⟩
  unfold Laying.target
  rw [leads_bind, leads_get]
  dsimp only
  cases near : (l.entry? c.callee).filter fun entry : Nat =>
    decide (((entry : Int) - c.offset).natAbs ≤ l.reach) with
  | some entry =>
    obtain ⟨placed, near⟩ := Option.filter_eq_some_iff.1 near
    refine leads_pure.2 ⟨[], .of_code rfl, stays.1, stays.2, by rw [append_nil]; exact id,
      .inl ⟨?_, by simpa using near⟩⟩
    simpa using h.entries _ _ placed
  | none =>
    cases seen : thunks.lookup c.callee with
    | some thunk =>
      obtain ⟨there, above, inside⟩ := passing.made _ _ seen
      refine leads_pure.2 ⟨[], .of_code rfl, stays.1, stays.2, by rw [append_nil]; exact id,
        .inr ⟨?_, above, by dsimp only; omega⟩⟩
      simpa using there
    | none =>
      refine leads_bind.2 ((h.addThunk c.callee).imp ?_ ?_)
      · rintro _ l₁ ⟨rfl, small, size, laid, same⟩
        have ends := h.size small
        have there : FarJump (pieces ++ [Piece.far c.callee]) c.callee l.code.size := by
          rw [FarJump, sited_append, Nat.zero_add, ← ends]
          exact mem_append_right _ (mem_singleton.2 rfl)
        have below := passing.below
        refine leads_pure.2 ⟨[Piece.far c.callee], ⟨?_, ?_, by rw [same]⟩, laid,
          ⟨?_, by omega, by omega⟩, fun all => ?_,
          .inr ⟨there, below, by dsimp only; omega⟩⟩
        · simp only [mem_singleton, forall_eq]
          exact ⟨_, rfl⟩
        · rw [same, ← ends]
          simp [Piece.far, farRef?]
        · intro callee start seen
          rw [lookup_cons] at seen
          split at seen
          · rename_i is
            cases seen
            rw [beq_iff_eq] at is
            subst is
            exact ⟨there, below, by omega⟩
          · obtain ⟨there, above, inside⟩ := passing.made _ _ seen
            exact ⟨there.mono, above, by omega⟩
        · exact append_nil (c :: rest) ▸ all.grow [Piece.far c.callee]
      · rintro _ l₁ ⟨laid, same, large, longer, short⟩
        have below := passing.below
        refine ⟨⟨.of_code same, ?_, by omega, by omega⟩,
          fun near => absurd near.2 (Nat.not_lt.2 large)⟩
        rw [append_nil]
        exact laid.wait (by simp)

/-- Directing one waiting call settles it. -/
theorem directCall (patched : l.lastPatched ≤ c.offset) (before : c.offset ≤ top)
    (room : top - l.lastPatched + count * thunkSize ≤ l.reach) :
    Leads (Laying.directCall thunks c) l
      (fun thunks' l' => ∃ fars filled',
        AddsFars l l' pieces fars ∧ Laid l' (pieces ++ fars) filled' rest ∧
        Passing top count l' (pieces ++ fars) thunks' rest ∧
        (Accounted l.reach pieces filled (c :: rest) →
          Accounted l.reach (pieces ++ fars) filled' rest))
      (fun _ l' => ∃ fars, PassDone top count l l' pieces fars filled ∧ ¬ l'.Near) := by
  unfold Laying.directCall
  refine leads_bind.2 ((h.target passing).imp ?_ fun _ _ stops => ⟨[], stops⟩)
  rintro ⟨target, thunks'⟩ l₁ ⟨fars, directs, laid, passing', grows, leads⟩
  have reach : l₁.reach = l.reach := by rw [directs.same]
  have reached : ((target : Int) - c.offset).natAbs ≤ l.reach := by
    rcases leads with ⟨_, near⟩ | ⟨_, above, below⟩
    · exact near
    · dsimp only at above below
      have : thunkSize = 5 := rfl
      omega
  dsimp only
  rw [leads_ite]
  split
  · have := passing'.room
    rw [leads_throw]
    refine ⟨fars, ⟨directs, laid.wait nofun, passing'.below, by omega⟩, fun near => ?_⟩
    have := near.1
    omega
  rename_i fits
  obtain ⟨patchAt, line, bytecode, there, calls⟩ := laid.waits c mem_cons_self
  generalize value_is : (((target : Int) - c.offset) % UInt32.size).toNat = value
  obtain ⟨code, written, size, laid'⟩ := laid.write value there (laid.calls_hole there calls)
  rw [leads_bind, leads_get, patchAt, written]
  dsimp only
  rw [leads_bind, leads_set, leads_pure]
  have leads : Enters (pieces ++ fars) c.callee target ∨ FarJump (pieces ++ fars) c.callee target :=
    leads.imp And.left And.left
  refine ⟨fars, _, ⟨directs.far, directs.targets, by rw [directs.same]⟩,
    laid'.wait fun c mem => mem_cons_of_mem _ mem,
    { passing' with made := ?_, below := ?_, room := ?_ }, fun all => ?_⟩
  · rw [size]
    exact passing'.made
  · rw [size]
    exact passing'.below
  · rw [size]
    exact passing'.room
  · intro o line' callee bytecode' mem calls'
    by_cases same : o = c.offset
    · subst same
      cases located_eq mem there
      rw [calls] at calls'
      cases calls'
      exact .inr ⟨target, ⟨by rw [if_pos rfl, value_is], reached, by omega, leads⟩⟩
    · rcases grows all o line' callee bytecode' mem calls' with wait | ⟨target', done⟩
      · rcases mem_cons.1 wait with is | wait
        · exact absurd (congrArg PendingCall.offset is) same
        · exact .inl wait
      · refine .inr ⟨target', { done with written := ?_ }⟩
        rw [if_neg (by omega)]
        exact done.written

end

/-- Directing all waiting calls, one after another. -/
theorem directCalls (h : Laid l pieces filled rest) (top count : Nat) (thunks : List (Nat × Nat))
    (passing : Passing top count l pieces thunks rest)
    (patched : ∀ c ∈ rest, l.lastPatched ≤ c.offset) (before : ∀ c ∈ rest, c.offset ≤ top)
    (room : top - l.lastPatched + count * thunkSize ≤ l.reach) :
    Leads (Laying.directCalls thunks rest) l
      (fun _ l' => ∃ fars filled', PassDone top count l l' pieces fars filled' ∧
        (Accounted l.reach pieces filled rest → Accounted l.reach (pieces ++ fars) filled' []))
      (fun _ l' => ∃ fars filled', PassDone top count l l' pieces fars filled' ∧ ¬ l'.Near) := by
  induction rest generalizing thunks l pieces filled with
  | nil =>
    have := passing.room
    refine leads_pure.2 ⟨[], filled,
      ⟨.of_code rfl, by rw [append_nil]; exact h, passing.below, by simpa using this⟩, ?_⟩
    rw [append_nil]
    exact id
  | cons c rest ih =>
    unfold Laying.directCalls
    refine leads_bind.2
      ((h.directCall passing (patched c mem_cons_self) (before c mem_cons_self) room).imp ?_ ?_)
    · rintro thunks₁ l₁ ⟨fars, filled₁, directs, laid, passing, grows⟩
      have patched' : l₁.lastPatched = l.lastPatched := by rw [directs.same]
      have reach' : l₁.reach = l.reach := by rw [directs.same]
      have joined {l' : Layout} {fars' : List Piece} {filled' : Nat → Option Nat}
          (passed : PassDone top count l₁ l' (pieces ++ fars) fars' filled') :
            PassDone top count l l' pieces (fars ++ fars') filled' :=
        ⟨directs.trans passed.directs, by rw [← append_assoc]; exact passed.laid, passed.below,
          passed.room⟩
      refine (ih laid thunks₁ passing (fun c mem => by
        rw [patched']; exact patched c (mem_cons_of_mem _ mem))
        (fun c mem => before c (mem_cons_of_mem _ mem))
          (by rw [patched', reach']; exact room)).imp ?_ ?_
      · rintro _ l' ⟨fars', filled', passed, grows'⟩
        rw [reach', append_assoc] at grows'
        exact ⟨fars ++ fars', filled', joined passed, grows' ∘ grows⟩
      · rintro _ l' ⟨fars', filled', passed, far⟩
        exact ⟨fars ++ fars', filled', joined passed, far⟩
    · rintro _ l' ⟨fars, passed, far⟩
      exact ⟨fars, filled, passed, far⟩

end Laid

/-- A layout whose calls wait only where a pass can settle them. As long as it is whole no call was
lost. -/
structure Sound (whole : Prop) (l : Layout) (pieces : List Piece)
    (filled : Nat → Option Nat) : Prop where
  laid : Laid l pieces filled l.pendingCalls.toList
  budget : Budget l
  calls : whole ∨ l.Near → Accounted l.reach pieces filled l.pendingCalls.toList

theorem Sound.new (whole : Prop) (reach : Nat) :
    Sound whole { reach := reach } [] (fun _ => none) :=
  ⟨Laid.new reach, ⟨Nat.le_refl _, by simp, Nat.zero_le _⟩, fun _ => by simp [Accounted]⟩

/-- What making room changes: far jumps are added, and perhaps no call waits any more. -/
structure Reserves (l l' : Layout) (pieces fars : List Piece) : Prop where
  far : ∀ p ∈ fars, ∃ callee, p = Piece.far callee
  targets : l'.thunkTargets.toList = l.thunkTargets.toList ++
    (sited (extent (linesOf pieces)) fars).filterMap farRef?
  same : l' = { l with code := l'.code, ranges := l'.ranges, thunkTargets := l'.thunkTargets
                       pendingCalls := l'.pendingCalls, lastPatched := l'.lastPatched }

/-- What is left of a layout when placing a chunk fails. -/
def Sound.Stops (l : Layout) (pieces : List Piece) (l' : Layout) : Prop :=
  ∃ fars filled, Reserves l l' pieces fars ∧ Sound False l' (pieces ++ fars) filled

section
variable {whole : Prop} {l l' : Layout} {pieces fars : List Piece} {filled : Nat → Option Nat}

theorem Sound.broken (h : Sound whole l pieces filled) : Sound False l pieces filled :=
  { h with calls := fun near => h.calls (.inr (near.resolve_left id)) }

/-- Where no displacement and no offset is too large, no call was lost. -/
theorem Sound.mend (h : Sound False l pieces filled) (near : l.Near) : Sound True l pieces filled :=
  { h with calls := fun _ => h.calls (.inr near) }

/-- Listing links, and forgetting what was to be listed, leaves the rest of a layout as it is. -/
theorem Sound.relink (h : Sound whole l pieces filled)
    (internal : Array InternalLink) (funcPtrs : Array FuncPtrTable)
    (pendingStubs : Array (Nat × StubKind))
    (thunkTargets : Array (Nat × Nat)) :
    Sound whole { l with link := { l.link with internal, funcPtrs }, pendingStubs, thunkTargets }
      pieces filled :=
  ⟨{ h.laid with }, { h.budget with }, h.calls⟩

theorem Sound.setEntry (h : Sound whole l pieces filled) {func entry : Nat}
    (enters : Enters pieces func entry) :
    Sound whole (l.setEntry func entry) pieces filled :=
  ⟨h.laid.setEntry enters, { h.budget with }, h.calls⟩

theorem Reserves.refl (l : Layout) (pieces : List Piece) : Reserves l l pieces [] :=
  ⟨by simp, by simp, rfl⟩

/-- A pass leaves no call waiting. If it fails, the layout stays as far as it came. -/
theorem Sound.thunkPass (h : Sound whole l pieces filled) : Leads Laying.thunkPass l
      (fun _ l' => ∃ fars filled', Reserves l l' pieces fars ∧
        Sound whole l' (pieces ++ fars) filled' ∧
        l'.pendingCalls = #[] ∧ l'.lastPatched = l'.code.size ∧ l'.code.size < UInt32.size)
      (fun _ => Stops l pieces) := by
  have laid := h.laid
  have budget := h.budget
  have inside : ∀ c ∈ l.pendingCalls.toList, c.offset ≤ l.code.size := fun c mem => by
    obtain ⟨_, line, bytecode, there, _⟩ := laid.waits c mem
    have := (located_le there).2
    have := laid.within
    omega
  have room := budget.room
  have patched := budget.patched
  have start : Laid { l with pendingCalls := #[] } pieces filled l.pendingCalls.toList :=
    { laid with }
  have reserves {l' : Layout} {fars : List Piece} {lastPatched : Nat}
      (directs : AddsFars { l with pendingCalls := #[] } l' pieces fars) :
      Reserves l { l' with lastPatched } pieces fars :=
        ⟨directs.far, directs.targets, by rw [directs.same]⟩
  have none' {l' : Layout} {fars : List Piece}
      (directs : AddsFars { l with pendingCalls := #[] } l' pieces fars) :
      l'.pendingCalls = #[] ∧ l'.lastPatched = l.lastPatched ∧ l'.reach = l.reach := by
    rw [directs.same]
    exact ⟨rfl, rfl, rfl⟩
  have stops {l' : Layout} {fars : List Piece} {filled' : Nat → Option Nat} (far : ¬ l'.Near)
      (passed : PassDone l.code.size l.pendingCalls.size
        { l with pendingCalls := #[] } l' pieces fars filled') : Stops l pieces l' := by
    obtain ⟨none', last, reach⟩ := none' passed.directs
    have := passed.room
    have := passed.below
    refine ⟨fars, filled', reserves passed.directs, by rw [none']; exact passed.laid,
      ⟨by omega, by simp [none'], ?_⟩,
      fun near => absurd (near.resolve_left id) far⟩
    rw [none', last, reach]
    simp only [size_toArray, length_nil]
    omega
  unfold Laying.thunkPass
  rw [leads_bind, leads_get, leads_bind, leads_modify, leads_bind]
  refine (start.directCalls l.code.size l.pendingCalls.size []
    ⟨by simp, Nat.le_refl _,
      by simp⟩ (fun c mem => budget.waiting c (by simpa using mem)) inside room).imp ?_ ?_
  · rintro _ l' ⟨fars, filled', passed, grows⟩
    rw [leads_bind, Laying.leads_codeEnd]
    split
    · rename_i small
      obtain ⟨none', _, reach⟩ := none' passed.directs
      have below := passed.below
      rw [leads_modify]
      refine ⟨fars, filled', reserves passed.directs,
        ⟨?_, ⟨Nat.le_refl _, by simp [none'], by simp [none']⟩, fun whole => ?_⟩, none', rfl, small⟩
      · rw [none']
        exact { passed.laid with }
      · rw [none', reach]
        refine grows (h.calls (whole.imp_right fun near => ?_))
        exact ⟨by rw [← reach]; exact near.1, Nat.lt_of_le_of_lt below small⟩
    · exact stops (fun near => by rename_i large; exact large near.2) passed
  · rintro _ l' ⟨fars, filled', passed, far⟩
    exact stops far passed

/-- After making room the chunk fits, with all its calls. -/
theorem Sound.reserve (h : Sound whole l pieces filled) (kind : RangeKind) (size calls : Nat) :
    Leads (Laying.reserve kind size calls) l
      (fun _ l' => ∃ fars filled', Reserves l l' pieces fars ∧
        Sound whole l' (pieces ++ fars) filled' ∧
        l'.code.size - l'.lastPatched + l'.pendingCalls.size * thunkSize +
          (size + calls * thunkSize) ≤ l'.reach)
      (fun _ => Stops l pieces) := by
  unfold Laying.reserve
  rw [leads_bind, leads_get]
  dsimp only
  rw [leads_ite, leads_throw]
  split
  · exact ⟨[], filled, .refl l pieces, by rw [append_nil]; exact h.broken⟩
  rw [leads_ite, leads_pure]
  split
  · refine h.thunkPass.imp ?_ fun _ _ stops => stops
    rintro _ l' ⟨fars, filled', reserves, sound, none', patched, _⟩
    refine ⟨fars, filled', reserves, sound, ?_⟩
    have : l'.reach = l.reach := by rw [reserves.same]
    rw [none', patched]
    simp only [size_toArray, length_nil]
    omega
  · exact ⟨[], filled, .refl l pieces, by rw [append_nil]; exact h, by omega⟩

/-- The symbols, by number. -/
def Symbol.all : List Symbol :=
  .callImport none :: [.i32, .i64, .f32, .f64, .v128].map (.callImport ∘ some) ++
    [.callOptimized, .growMemory, .currentMemory, .handleInterrupt]

theorem Symbol.all_number (symbol : Symbol) : all[symbol.number]? = some symbol := by
  cases symbol with
  | callImport result =>
    cases result with
    | none => rfl
    | some ty => cases ty <;> rfl
  | _ => rfl

theorem Symbol.number_inj {a b : Symbol} (same : a.number = b.number) : a = b :=
  Option.some.inj (by rw [← all_number, ← all_number, same])

theorem Symbol.number_lt (symbol : Symbol) : symbol.number < Symbol.count :=
  (List.getElem?_eq_some_iff.1 symbol.all_number).1

theorem Symbol.exists_number {n : Nat} (lt : n < Symbol.count) :
    ∃ symbol : Symbol, symbol.number = n := by
  refine ⟨all.get ⟨n, lt⟩, ?_⟩
  revert n
  decide

theorem addSymbols_ok (start : Nat) (refs : List (Nat × Symbol)) (link : LinkData)
    (count : link.symbolic.size = Symbol.count) :
    let after := refs.foldl (fun link (place, symbol) => link.addSymbol symbol (start + place)) link
    after.symbolic.size = Symbol.count ∧ after.internal = link.internal ∧
      after.funcPtrs = link.funcPtrs ∧
      ∀ symbol : Symbol, (after.symbolic.getD symbol.number #[]).toList =
        (link.symbolic.getD symbol.number #[]).toList ++
        refs.filterMap fun (o, symbol') => if symbol' = symbol then some (start + o) else none := by
  induction refs generalizing link with
  | nil => simp [count]
  | cons ref refs ih =>
    obtain ⟨o, symbol'⟩ := ref
    obtain ⟨sizes, internal, funcPtrs, all⟩ :=
      ih (link.addSymbol symbol' (start + o)) (by simp [LinkData.addSymbol, count])
    refine ⟨sizes, internal, funcPtrs, fun symbol => ?_⟩
    rw [foldl_cons, all]
    have inside : symbol.number < link.symbolic.size := by
      rw [count]
      exact symbol.number_lt
    simp only [LinkData.addSymbol, Array.getD_eq_getD_getElem?, Array.getElem?_modify,
      filterMap_cons]
    by_cases is : symbol' = symbol
    · subst is
      rw [if_pos rfl, if_pos rfl, Array.getElem?_eq_getElem inside]
      simp
    · rw [if_neg fun same => is (Symbol.number_inj same), if_neg is]

/-- What placing a chunk changes: far jumps may come first, and then the piece follows. -/
structure Appends (whole : Prop) (l l' : Layout) (pieces fars : List Piece) (p : Piece)
    (filled : Nat → Option Nat) : Prop where
  sound : Sound whole l' (pieces ++ fars ++ [p]) filled
  far : ∀ p ∈ fars, ∃ callee, p = Piece.far callee
  entries : l'.entries = l.entries
  reach : l'.reach = l.reach
  unlinked : Unlinked l pieces → Unlinked l' (pieces ++ fars ++ [p])

theorem farRef?_eq_none {p : Piece} {s : Nat} (near : ∀ callee, p.kind ≠ .callThunk callee) :
    farRef? (s, p) = none := by
  cases is : p.kind with
  | callThunk callee => exact absurd is (near callee)
  | _ => simp [farRef?, is]

theorem Reserves.unlinked (h : Reserves l l' pieces fars) (u : Unlinked l pieces) :
    Unlinked l' (pieces ++ fars) := by
  have stubs : (located (0 + extent (linesOf pieces)) (linesOf fars)).filterMap stubRef? = [] := by
    rw [filterMap_eq_nil_iff]
    rintro ⟨o, line⟩ mem
    obtain ⟨s, p, there, inside⟩ := sited_of_located mem
    obtain ⟨callee, rfl⟩ := h.far p (mem_of_sited there)
    simp only [Piece.far, located_cons, located_nil, mem_singleton, Prod.mk.injEq] at inside
    rw [inside.2]
    rfl
  refine ⟨?_, ?_, ?_, ?_⟩
  · rw [linesOf_append, located_append, filterMap_append, stubs, append_nil, ← u.stubs, h.same]
  · rw [sited_append, filterMap_append, Nat.zero_add, ← u.fars, h.targets]
  · rw [h.same]
    exact u.internal
  · rw [h.same]
    exact u.funcPtrs

theorem RangeKind.placed_far {kind : RangeKind} {start entry : Nat}
    (near : ∀ callee, kind ≠ .callThunk callee)
    (callee : Nat) : kind.placed start entry ≠ .callThunk callee := by
  cases kind with
  | callThunk other => exact absurd rfl (near other)
  | _ => simp [RangeKind.placed]

/-- A chunk is placed, perhaps after far jumps. -/
theorem Sound.append (h : Sound whole l pieces filled) (kind : RangeKind) {chunk : Chunk}
    {lines : List Line}
    (made : chunk.MadeOf lines) (plain : ∀ line ∈ lines, line.Plain)
    (near : ∀ callee, kind ≠ .callThunk callee) :
    Leads (Laying.append chunk kind) l
      (fun start l' => ∃ fars filled', start = extent (linesOf (pieces ++ fars)) ∧
        Appends whole l l' pieces fars ⟨kind.placed start chunk.entry, lines⟩ filled')
      (fun _ => Stops l pieces) := by
  unfold Laying.append
  refine leads_bind.2 ((h.reserve kind chunk.code.size chunk.callSites.size).imp ?_ fun _ _ stops =>
    stops)
  rintro _ l₁ ⟨fars, filled', reserves, sound, room⟩
  have laid := sound.laid
  have budget := sound.budget
  have patched := budget.patched
  rw [leads_bind, Laying.leads_codeEnd]
  split
  rotate_left
  · exact ⟨fars, filled', reserves, sound.broken⟩
  rename_i small
  have size := laid.size small
  have codeSize : (l₁.code ++ chunk.code).size = l₁.code.size + chunk.code.size :=
    ByteArray.size_append
  rw [leads_bind, leads_modify, leads_bind, Laying.leads_codeEnd]
  split
  rotate_left
  · rename_i large
    have large : UInt32.size ≤ (l₁.code ++ chunk.code).size := Nat.not_lt.1 large
    refine ⟨fars, filled', ⟨reserves.far, reserves.targets, by rw [reserves.same]⟩,
      laid.outgrow large (by omega), { budget with
      patched := show l₁.lastPatched ≤ (l₁.code ++ chunk.code).size by omega
      room :=
        show (l₁.code ++ chunk.code).size - l₁.lastPatched + l₁.pendingCalls.size * thunkSize ≤
          l₁.reach by omega },
      fun near => absurd (near.resolve_left id).2 (Nat.not_lt.2 large)⟩
  rw [leads_bind, leads_modify, leads_pure]
  dsimp only
  generalize same : Layout.mk _ _ _ _ _ _ _ _ _ _ _ _ = l'
  have near' : ∀ callee, kind.placed l₁.code.size chunk.entry ≠ .callThunk callee :=
    RangeKind.placed_far near
  have shift := located_add l₁.code.size 0 lines
  rw [Nat.add_zero] at shift
  have symbols := addSymbols_ok l₁.code.size chunk.symbolRefs.toList l₁.link laid.symbols.1
  rw [Array.foldl_toList] at symbols
  have pending : (chunk.callSites.map fun s =>
      (⟨l₁.code.size + s.offset, l₁.code.size + s.patchAt, s.callee⟩ : PendingCall)).toList =
        (located l₁.code.size lines).filterMap pendingCall? := by
    rw [Array.toList_map, made.callSites, shift, map_filterMap, filterMap_map]
    congr 1
    funext ⟨o, line⟩
    cases is : line.calls <;> simp [callSite?, pendingCall?, is, Nat.add_assoc]
  have grown :=
    laid.grow l' (p := ⟨kind.placed l₁.code.size chunk.entry, lines⟩) (.inr ⟨near', plain⟩)
    small (by rw [← same]) (by rw [← same, ← made.code]; exact ByteArray.toList_data_append)
    (by rw [← same, codeSize, Array.toList_push, made.size]; rfl)
    (by
      rw [← same, Array.toList_append, Array.toList_map, made.trapSites, shift, map_filterMap,
        filterMap_map]
      congr 2
      funext ⟨o, line⟩
      cases is : line.traps <;> simp [trapSite?, is])
    (by
      rw [← same, Array.toList_append, Array.toList_map, made.callSites, shift, map_filterMap,
        filterMap_map]
      congr 2
      funext ⟨o, line⟩
      cases is : line.calls <;> simp [callSite?, is, Nat.add_assoc])
    (by
      rw [← same]
      refine ⟨symbols.1, fun symbol => ?_⟩
      rw [symbols.2.2.2, made.symbolRefs, shift, filterMap_filterMap, filterMap_map]
      congr 2
      funext ⟨o, line⟩
      cases is : line.symbol <;> simp [symbolRef?, symbolPlace?, is, Nat.add_assoc])
    (by
      rw [← same]
      intro sig
      rw [Array.mem_append, made.indirectSigs])
  have waiting : l'.pendingCalls.toList =
      l₁.pendingCalls.toList ++ (located l₁.code.size lines).filterMap pendingCall? := by
    rw [← same, Array.toList_append, pending]
  have reach : l'.reach = l₁.reach := by rw [← same]
  refine ⟨fars, filled', size, ⟨?_, ⟨?_, ?_, ?_⟩, fun all => ?_⟩, reserves.far, ?_, ?_, fun u => ?_⟩
  · rw [waiting]
    exact grown
  · rw [← same]
    show l₁.lastPatched ≤ (l₁.code ++ chunk.code).size
    omega
  · intro c mem
    have patched : l'.lastPatched = l₁.lastPatched := by rw [← same]
    have mem : c ∈ l'.pendingCalls.toList := by simpa using mem
    rw [waiting] at mem
    rw [patched]
    rcases mem_append.1 mem with mem | mem
    · exact budget.waiting c (by simpa using mem)
    · obtain ⟨⟨o, line⟩, there, is⟩ := mem_filterMap.1 mem
      obtain ⟨call, _, rfl⟩ := Option.map_eq_some_iff.1 is
      have := (located_le there).1
      show l₁.lastPatched ≤ o
      omega
  · rw [← same]
    show (l₁.code ++ chunk.code).size - l₁.lastPatched +
      (l₁.pendingCalls ++ chunk.callSites.map fun s => _).size * thunkSize ≤ l₁.reach
    rw [Array.size_append, Array.size_map, Nat.add_mul, codeSize]
    omega
  · have calls :=
      (sound.calls (all.imp_right fun near => ⟨by rw [← reach]; exact near.1, small⟩)).grow
      [⟨kind.placed l₁.code.size chunk.entry, lines⟩]
    rw [linesOf_cons, linesOf_nil, append_nil, ← size] at calls
    rw [waiting, reach]
    exact calls
  · rw [← same, reserves.same]
  · rw [← same, reserves.same]
  · have u₁ := reserves.unlinked u
    refine ⟨?_, ?_, ?_, ?_⟩
    · rw [linesOf_append, located_append, filterMap_append, ← u₁.stubs, ← same, Array.toList_append,
        Array.toList_map, made.stubRefs, Nat.zero_add, ← size]
      simp only [linesOf_cons, linesOf_nil, append_nil]
      rw [shift, map_filterMap, filterMap_map]
      congr 2
      funext ⟨o, line⟩
      cases is : line.instr.stub? with
      | none => simp [stubRef?, is]
      | some stub => simp [stubRef?, is, Nat.add_assoc]
    · have none' := farRef?_eq_none (s := 0 + extent (linesOf (pieces ++ fars)))
        (p := ⟨kind.placed l₁.code.size chunk.entry, lines⟩) near'
      rw [sited_append, filterMap_append, ← u₁.fars, ← same, sited_cons, sited_nil,
        filterMap_cons, none']
      simp
    · rw [← same]
      exact symbols.2.1.trans u₁.internal
    · rw [← same]
      exact symbols.2.2.1.trans u₁.funcPtrs

end
end Wasmill.Code

import Wasmill.Proofs.Ssa.Sequence
import Wasmill.Proofs.Ssa.Strict

/-! Pruning a loop does not change what a function does.

In a strict function the value that a dropped parameter stands for is defined on the way to the
header, and before any other way back to its definition the header is passed again. So wherever the
parameter is available it holds that value, and a run of the function and a run of what is left of
it keep step. -/
namespace Wasmill.Ssa
open List
variable {σ ε : Type}

/-- A run as it is seen without the values it holds. -/
def Progress.outline : Progress σ ε → Progress σ ε
  | .running s h => .running { s with vals := fun _ => none } h
  | p => p

namespace Function
variable {f f' g : Function} {h : LoopHeader} {index param v : Nat} {r : EdgeRef} {u : Value}

/-- A parameter that a strict function does not need. -/
structure Needless (f : Function) (h : LoopHeader) (index param v : Nat) (f' : Function) :
    Prop extends
    Spare f h index param v f' where
  strict : f.Strict

namespace Needless
variable {b k x : Nat} (idle : f.Needless h index param v f')
include idle

/-! ### Where the value is defined -/

theorem own : f.sameAs v = none := by
  obtain ⟨a, -, rfl, -⟩ := idle.passesIn
  exact sameAs_resolve idle.regular.descending a

theorem ne : v ≠ param := Nat.ne_of_lt (idle.older idle.mem)

theorem param_defined : f.DefinedAt h.block 0 param := idle.mem

theorem defined_ne (defined : f.DefinedAt b (k + 1) x) : x ≠ param := by
  rintro rfl
  exact absurd (idle.strict.once _ _ _ _ _ defined idle.param_defined).2 (Nat.succ_ne_zero k)

theorem behind (available : f.Available b k param) : ¬ f.Reach [h.block] b := by
  obtain ⟨a, j, defined, there⟩ := available
  obtain ⟨rfl, rfl⟩ := idle.strict.once _ _ _ _ _ defined idle.param_defined
  rcases there with ⟨rfl, -⟩ | ⟨-, above⟩
  · exact fun reach => reach.not_mem mem_cons_self
  · exact above

/-- Edges that lead to the header past it pass the value itself. -/
theorem into {e : Edge} (edge : f.edge? r = some e) (to' : e.block = h.block)
    (past : f.Reach [h.block] r.block) : f.Available r.block (f.block r.block).steps.size v := by
  have mem := idle.looped.only r e edge to'
  obtain ⟨args, into, size⟩ := idle.looped.passes r mem
  have inside : index < args.size := size ▸ (Array.getElem?_eq_some_iff.1 idle.place).1
  have passed := incoming_eq into (Array.getElem?_eq_getElem inside)
  have available := idle.strict.uses _ _ _ (past.mono (nil_subset _))
    (.edge (k := (f.block r.block).steps.size) (by simp) into (Array.getElem_mem inside))
  rw [← passed] at available
  by_cases itself : f.incoming index r = param
  · exact absurd past (idle.behind (itself ▸ available))
  · exact soleValue_eq_some idle.sole mem itself ▸ available

theorem defined (reach : f.Reach [] h.block) : ∃ d j, f.DefinedAt d j v ∧ f.Reach [h.block] d := by
  rcases reach.split h.block with past | ⟨-, entry | ⟨r, e, edge, to', past⟩⟩
  · exact absurd mem_cons_self past.not_mem
  · exact absurd entry idle.looped.ne_entry
  · obtain ⟨d, j, defined, ⟨rfl, -⟩ | ⟨-, above⟩⟩ := idle.into edge to' past
    · exact ⟨_, j, defined, past⟩
    · rcases past.split d with past | ⟨reach, -⟩
      · exact absurd (past.mono (by simp)) above
      · exact ⟨d, j, defined, reach⟩

/-- Behind the header the value is not defined again. -/
theorem not_defined (reach : f.Reach [] b) (behind : ¬ f.Reach [h.block] b) : ¬ f.DefinedAt b k v :=
  fun here => by
  obtain ⟨header, -⟩ := (reach.split h.block).resolve_left behind
  obtain ⟨d, j, defined, past⟩ := idle.defined header
  exact behind ((idle.strict.once _ _ _ _ _ defined here).1 ▸ past)

/-- The value is available wherever the parameter is. -/
theorem available (reach : f.Reach [] b) (available : f.Available b k param) :
    f.Available b k v := by
  have behind := idle.behind available
  obtain ⟨header, -⟩ := (reach.split h.block).resolve_left behind
  obtain ⟨d, j, defined, past⟩ := idle.defined header
  refine ⟨d, j, defined, .inr ⟨fun same => behind (same ▸ past), fun around => ?_⟩⟩
  -- a way around `d` comes to the header for a first time, with the value at hand
  rcases around.split h.block with past | ⟨-, entry | ⟨r, e, edge, to', past⟩⟩
  · exact behind (past.mono (by simp))
  · exact idle.looped.ne_entry entry
  · obtain ⟨d', j', defined', there⟩ := idle.into edge to' (past.mono (by simp))
    obtain ⟨rfl, rfl⟩ := idle.strict.once _ _ _ _ _ defined' defined
    rcases there with ⟨rfl, -⟩ | ⟨-, above⟩
    · exact past.not_mem (by simp)
    · exact above (past.mono (by simp))

/-! ### Strict functions stay strict -/

theorem resolve (u : Value) : f'.resolve u = if f.resolve u = param then v else f.resolve u := by
  have down := idle.keeps_regular.descending
  rw [← resolve_of_aliases idle.regular.descending down (fun _ _ => idle.aliases) u]
  split
  · next is =>
    rw [is, resolve_of_sameAs down (by rw [idle.sameAs, if_pos rfl])]
    exact resolve_of_none (by rw [idle.sameAs, if_neg idle.ne, idle.own])
  · next other =>
    exact resolve_of_none (by rw [idle.sameAs, if_neg other,
      sameAs_resolve idle.regular.descending])

theorem reach {off : List Nat} : f'.Reach off b ↔ f.Reach off b :=
  ⟨fun reach => reach.congr idle.leads, fun reach => reach.congr fun r e found =>
    ⟨_, by rw [idle.edge?, found]; rfl⟩⟩

theorem defined_iff : f'.DefinedAt b k x ↔ f.DefinedAt b k x ∧ x ≠ param := by
  cases k with
  | zero => exact idle.mem_params
  | succ k =>
    simp only [DefinedAt, idle.steps]
    exact ⟨fun there => ⟨there, idle.defined_ne there⟩, fun there => there.1⟩

theorem still_available (available : f.Available b k x) (other : x ≠ param) :
    f'.Available b k x := by
  obtain ⟨a, j, defined, there⟩ := available
  exact ⟨a, j, idle.defined_iff.2 ⟨defined, other⟩, by rw [idle.reach]; exact there⟩

/-- What stood for a value at a place is available, and so is what does now. -/
theorem resolved_available (reach : f.Reach [] b) (available : f.Available b k (f.resolve u)) :
    f'.Available b k (f'.resolve u) := by
  rw [idle.resolve]
  split
  · next is => exact idle.still_available (idle.available reach (is ▸ available)) idle.ne
  · next other => exact idle.still_available available other

theorem keeps_strict : f'.Strict where
  own b k x there := by
    obtain ⟨there, other⟩ := idle.defined_iff.1 there
    rw [idle.sameAs, if_neg other]
    exact idle.strict.own b k x there
  once a j b k x one two := idle.strict.once a j b k x (idle.defined_iff.1 one).1
    (idle.defined_iff.1 two).1
  uses b k x reach used := by
    have reach := idle.reach.1 reach
    have resolved {u : Value} (used : f.UsedAt b k (f.resolve u)) :
        f'.Available b k (f'.resolve u) :=
      idle.resolved_available reach (idle.strict.uses b k _ reach used)
    cases used with
    | step there mem => exact resolved (.step (idle.steps b ▸ there) mem)
    | exit done left mem =>
      cases before : (f.block b).leave with
      | none => rw [idle.unleft b before] at left; cases left
      | some l =>
        obtain ⟨l', left', -, bare⟩ := idle.left b l before
        cases left.symm.trans left'
        exact resolved (.exit (idle.steps b ▸ done) before (Exit.operands_of_bare bare ▸ mem))
    | @edge i e u done edge mem =>
      rw [idle.edge?] at edge
      obtain ⟨e, before, rfl⟩ := Option.map_eq_some_iff.1 edge
      refine resolved (.edge (idle.steps b ▸ done) before ?_)
      dsimp only at mem
      split at mem
      · obtain ⟨j, -, at'⟩ := mem_eraseIdxIfInBounds.1 mem
        exact Array.mem_of_getElem? at'
      · exact mem

end Needless

/-! ### Keeping step -/

/-- The runs stand at one place and hold the same values, but for the parameter: behind the header,
that is the value which stands for it. -/
structure Alongside (f : Function) (h : LoopHeader) (param v : Value) (s s' : State) :
    Prop extends f.Filled s where
  block : s'.block = s.block
  index : s'.index = s.index
  others : ∀ x : Nat, x ≠ param → s'.vals x = s.vals x
  same : ¬ f.Reach [h.block] s.block → s.vals param = s.vals v

inductive InStep (f : Function) (h : LoopHeader) (param v : Value) :
    Progress σ ε → Progress σ ε → Prop
  | running {s s' : State} (history : History σ) :
      f.Alongside h param v s s' → InStep f h param v (.running s history) (.running s' history)
  | ended (o : Ending ε) (history : History σ) :
      InStep f h param v (.ended o history) (.ended o history)
  | stuck : InStep f h param v .stuck .stuck

namespace Alongside
variable {s s' : State} (idle : f.Needless h index param v f')
  (follows : f.Alongside h param v s s')
include idle follows

theorem read (used : f.UsedAt s.block s.index (f.resolve u)) :
    f'.read s'.vals u = f.read s.vals u := by
  rw [Function.read, Function.read, idle.resolve]
  split
  · next is =>
    have behind := idle.behind (is ▸ idle.strict.uses _ _ _ follows.reached used)
    rw [follows.others v idle.ne, is, follows.same behind]
  · next other => exact follows.others _ other

theorem after {step : Step} (there : (f.block s.block).steps[s.index]? = some step) (y : Slot) :
    f.Alongside h param v (f.after s step y) (f'.after s' step y) := by
  have filled := follows.toFilled.after idle.strict there y
  have index := congrArg (· + 1) follows.index
  cases result : step.result with
  | none =>
    exact { filled with
      block := follows.block, index := index
      others := by simpa only [Function.after, result] using follows.others
      same := by simpa only [Function.after, result] using follows.same }
  | some r =>
    have defined : f.DefinedAt s.block (s.index + 1) r := ⟨step, there, result⟩
    have own := resolve_of_none (idle.strict.own _ _ _ defined)
    have other := idle.defined_ne defined
    have own' : f'.resolve r = r := by rw [idle.resolve, own, if_neg other]
    refine { filled with block := follows.block, index := index, others := fun x ne => ?_, same :=
      fun behind => ?_ }
    · simp only [Function.after, result, assign, own, own', follows.others x ne]
    · have apart : r ≠ v := fun is => idle.not_defined follows.reached behind (is ▸ defined)
      simp only [Function.after, result, assign, own, if_neg (Ne.symm other),
        if_neg (Ne.symm apart)]
      exact follows.same behind

/-- An edge is taken by both runs, or by none. -/
theorem cross (done : (f.block s.block).steps[s.index]? = none) (i : Nat) :
    f.cross s i = none ∧ f'.cross s' i = none ∨
      ∃ t t', f.cross s i = some t ∧ f'.cross s' i = some t' ∧ f.Alongside h param v t t' := by
  simp only [Function.cross, follows.block]
  cases edge : f.edge? ⟨s.block, i⟩ with
  | none => exact .inl ⟨rfl, by simp [idle.edge?, edge]⟩
  | some e =>
    by_cases size : e.args.size = (f.block e.block).params.size
    · obtain ⟨args, edge', carries⟩ := idle.grows.edge edge
      obtain ⟨xs, t, reads, taken, block, index, params, others, filled⟩ :=
        follows.toFilled.cross idle.strict idle.regular edge done size
      rw [← readAll_congr fun u mem =>
        follows.read idle (.edge done edge (Array.mem_def.2 mem))] at reads
      obtain ⟨t', taken', block', index', params', others'⟩ :=
        take_carries idle.keeps_regular carries size reads
      have each (q : Nat) (mem : q ∈ (f.block e.block).params) : f'.read t'.vals q = t.vals q := by
        obtain ⟨j, at'⟩ := Array.mem_iff_getElem?.1 mem
        rw [readAll_getElem? params' (i := j) (by simpa using at'),
          ← readAll_getElem? params (i := j) (by simpa using at'),
          Function.read, resolve_of_none (idle.regular.param_own _ q mem)]
      have stays (x : Nat) (out : x ∉ (f.block e.block).params) (other : x ≠ param) :
          t'.vals x = t.vals x := by
        rw [others' x fun mem => out (carries.subset x mem), others x out, follows.others x other]
      refine .inr ⟨t, t', taken, by rw [edge']; exact taken', { filled with
        block := block'.trans block.symm, index := index'.trans index.symm
        others := fun x other => ?_, same := fun behind => ?_ }⟩
      · by_cases mem : x ∈ (f.block e.block).params
        · rw [← each x mem, Function.read, idle.resolve,
            resolve_of_none (idle.regular.param_own _ x mem), if_neg other]
        · exact stays x mem other
      · have apart : v ∉ (f.block e.block).params := fun mem =>
          idle.not_defined filled.reached behind
            (block.symm ▸ show f.DefinedAt e.block 0 v from mem)
        by_cases header : e.block = h.block
        · have mem : param ∈ (f.block e.block).params := header ▸ idle.mem
          rw [← each param mem, Function.read, idle.resolve,
            resolve_of_none (idle.regular.param_own _ param mem),
            if_pos rfl, stays v apart idle.ne]
        · rw [others param fun mem => header (idle.regular.param_apart _ _ _ mem idle.mem),
            others v apart]
          exact follows.same fun reach =>
            behind (block.symm ▸ .edge reach edge (by simpa using header))
    · have other : e.block ≠ h.block := fun same => by
        obtain ⟨args, edge', fits⟩ := idle.looped.passes _ (idle.looped.only _ e edge same)
        cases edge.symm.trans edge'
        exact size fits
      simp [idle.edge?, edge, take, size, other, idle.elsewhere _ other]

end Alongside

namespace InStep
variable {p p' : Progress σ ε} (idle : f.Needless h index param v f')
  (tracks : InStep f h param v p p') (O : Outside σ ε)
include idle tracks

theorem step : InStep f h param v (p.step f O) (p'.step f' O) := by
  cases tracks with
  | ended o history => exact .ended o history
  | stuck => exact .stuck
  | @running s s' history follows =>
    simp only [Progress.step, Function.next, follows.block, follows.index, idle.steps]
    cases there : (f.block s.block).steps[s.index]? with
    | some step =>
      simp only [Inst.demand_congr fun u mem => follows.read idle (.step there mem)]
      cases step.inst.demand f s.vals with
      | none => exact .stuck
      | some d =>
        dsimp only
        cases O.meet history d with
        | value y history => exact .running history (follows.after idle there y)
        | trap t => exact .ended _ history
        | failure e history => exact .ended _ history
    | none =>
      cases left : (f.block s.block).leave with
      | none => simp only [idle.unleft _ left]; exact .stuck
      | some l =>
        obtain ⟨l', left', srcloc, bare⟩ := idle.left _ l left
        have departs := (Exit.depart_of_bare bare f' s'.vals).trans
          (Exit.depart_congr fun u mem => follows.read idle (.exit there left mem))
        simp only [left', leaving, departs, srcloc]
        cases l.exit.depart f s.vals with
        | none => exact .stuck
        | some d =>
          cases d with
          | ret v => exact .ended _ history
          | trap t => exact .ended _ history
          | edge i =>
            rcases follows.cross idle there i with ⟨one, two⟩ | ⟨t, t', one, two, follows⟩
            · simp only [one, two]; exact .stuck
            · simp only [one, two]; exact .running history follows

theorem run (n : Nat) : InStep f h param v (p.run f O n) (p'.run f' O n) := by
  induction n generalizing p p' with
  | zero => exact tracks
  | succ n ih => exact ih (tracks.step idle O)

end InStep

theorem InStep.outline {p p' : Progress σ ε} (tracks : InStep f h param v p p') :
    p'.outline = p.outline := by
  cases tracks with
  | running history follows => simp only [Progress.outline, follows.block, follows.index]
  | ended _ _ | stuck => rfl

theorem Needless.alongside_start (idle : f.Needless h index param v f') {args : List Slot}
    (given : ∀ x : Nat, x ∈ (f.block 0).params → x < args.length) :
    f.Alongside h param v (start args) (start args) where
  reached := .entry (by simp)
  filled x available := by
    obtain ⟨a, j, defined, ⟨rfl, le⟩ | ⟨other, above⟩⟩ := available
    · cases Nat.le_zero.1 le
      exact ⟨_, getElem?_eq_getElem (given x defined)⟩
    · exact absurd (.entry (by simpa using Ne.symm (show a ≠ 0 from other))) above
  block := rfl
  index := rfl
  others _ _ := rfl
  same behind := absurd (.entry (by simpa using Ne.symm idle.looped.ne_entry)) behind

/-! ### Pruning -/

theorem soleValue_eq_none {edges : List EdgeRef} {i p w : Nat} (mem : r ∈ edges)
    (other : f.incoming i r ≠ p)
    (all : ∀ r ∈ edges, f.incoming i r = p ∨ f.incoming i r = w) :
    f.soleValue edges i p ≠ none := by
  have passed : f.incoming i r ∈ (edges.map (f.incoming i)).filter (· ≠ p) := by
    simpa [other] using ⟨r, mem, rfl⟩
  have single : ∀ x ∈ (edges.map (f.incoming i)).filter (· ≠ p), x = w := fun x mem => by
    simp only [mem_filter, mem_map, decide_eq_true_eq] at mem
    obtain ⟨⟨r, mem, rfl⟩, ne⟩ := mem
    exact (all r mem).resolve_left ne
  unfold soleValue
  split
  · next first rest found =>
    rw [found, forall_mem_cons] at single
    rw [if_pos (all_eq_true.2 fun x mem => by simp [single.1, single.2 x mem])]
    simp
  · next found =>
    rw [found] at passed
    cases passed

/-- What pruning drops stands for what enters the loop. -/
theorem Prunes.entered (prunes : Prunes h f g) (regular : f.Regular) (looped : f.Looped h) :
    g.Regular ∧ g.Looped h ∧ (∀ x a, g.PassesIn h x a → f.PassesIn h x a) ∧
      (∀ x w, f.sameAs x = some w → g.sameAs x = some w) ∧
      ∀ x w, g.sameAs x = some w → f.sameAs x = some w ∨ ∃ a, f.PassesIn h x a ∧
        w = f.resolve a := by
  refine prunes.keeps regular looped ?_ ?_
  · exact ⟨regular, looped, fun _ _ => id, fun _ _ => id, fun _ _ => .inl⟩
  rintro g g' index param v spare ⟨-, -, enters, aliases, aliased⟩
  refine ⟨spare.keeps_regular, spare.keeps_looped, fun x a ⟨i, args, edge, at', passed⟩ =>
    enters x a ?_, fun x w same => spare.aliases (aliases x w same), fun x w same => ?_⟩
  · exact spare.passed edge at' passed
  · rw [spare.sameAs] at same
    split at same
    · next is =>
      cases same
      obtain ⟨a, into, rfl, -⟩ := spare.passesIn
      have into := enters _ _ into
      refine .inr ⟨a, is ▸ into, ?_⟩
      -- nothing as old as what `a` stood for became an alias
      rw [← resolve_of_aliases regular.descending spare.regular.descending aliases a]
      refine resolve_of_none (Option.eq_none_iff_forall_ne_some.2 fun w same => ?_)
      rcases aliased _ w same with same | ⟨b, ⟨i, args, edge, at', passed⟩, -⟩
      · rw [sameAs_resolve regular.descending] at same
        cases same
      · obtain ⟨j, args', edge', -, passed'⟩ := into
        have :=
          looped.entered args' edge' a _ (Array.mem_of_getElem? passed') (Array.mem_of_getElem? at')
        exact absurd (resolve_le regular.descending a) (Nat.not_le_of_lt this)
    · exact aliased x w same

/-- Given its arguments, a run of `g` comes to where that of `f` comes, in as many steps, and has
done the same. -/
def DoneBy (f g : Function) : Prop :=
  ∀ (σ ε : Type) (O : Outside σ ε) (args : List Slot) (st : σ) (n : Nat),
    (∀ x : Nat, x ∈ (f.block 0).params → x < args.length) →
    (Progress.run g O n (.running (start args) ⟨st, []⟩)).outline =
      (Progress.run f O n (.running (start args) ⟨st, []⟩)).outline

/-- What pruning keeps of a strict function: where values are available, and what runs do. -/
theorem Prunes.strict (prunes : Prunes h f g) (regular : f.Regular) (looped : f.Looped h)
    (strict : f.Strict) :
    g.Strict ∧ (∀ b, g.Reach [] b ↔ f.Reach [] b) ∧ (g.block 0).params = (f.block 0).params ∧
      (∀ b k x, f.Reach [] b → f.Available b k x → g.Available b k (g.resolve x)) ∧ f.DoneBy g := by
  refine prunes.keeps regular looped ?_ ?_
  · refine ⟨strict, fun _ => .rfl, rfl, fun b k x _ there => ?_, fun _ _ _ _ _ _ _ => rfl⟩
    obtain ⟨a, j, defined, -⟩ := id there
    rw [resolve_of_none (strict.own a j x defined)]
    exact there
  rintro g g' index param v spare ⟨strict, reach, params, available, runs⟩
  have idle : g.Needless h index param v g' := ⟨spare, strict⟩
  refine ⟨idle.keeps_strict, fun b => idle.reach.trans (reach b),
    (idle.elsewhere 0 (Ne.symm looped.ne_entry)).trans params, fun b k x reached there =>
      ?_, fun σ ε O args st n given => ?_⟩
  · exact idle.resolved_available ((reach b).2 reached) (available b k x reached there)
  · rw [← runs σ ε O args st n given]
    exact (InStep.run idle (.running _ (idle.alongside_start (params ▸ given))) O n).outline

/-- Pruning a loop comes to an end, after which every parameter is needed. The edges of the loop
still pass a value for each, and what was dropped is an alias of the value that enters the loop. In
a strict function that value is available wherever the parameter was, and all runs do what they did.
-/
theorem pruneLoop_faithful (regular : f.Regular) (looped : f.Looped h) :
    let g := f.pruneLoop h.block h.edges
    (g.pruneRound h.block h.edges = g ∧ ∀ n,
      (f.block h.block).params.size < n → pruneRounds h.block h.edges n f = g) ∧
    (∀ r ∈ h.edges, ∃ args, g.edge? r = some ⟨h.block, args⟩ ∧
      args.size = (g.block h.block).params.size) ∧
    (∀ x w, g.sameAs x = some w → f.sameAs x = some w ∨ ∃ a, f.PassesIn h x a ∧ w = f.resolve a) ∧
    (g.Descending ∧ ∀ x, g.sameAs (g.resolve x) = none) ∧
    (∀ i p : Nat, (g.block h.block).params[i]? = some p → ¬ ∃ w, ∀ r ∈ h.edges,
      g.incoming i r = p ∨ g.incoming i r = w) ∧
    (f.Strict → (∀ b k x, f.Reach [] b → f.Available b k x → g.Available b k (g.resolve x)) ∧
      f.DoneBy g) := by
  obtain ⟨⟨fixed, needed⟩, any⟩ := pruneRounds_settled (f := f) (h := h) _ (Nat.lt_succ_self _)
  have prunes := pruneLoop_prunes f h
  obtain ⟨regular', looped', -, -, aliased⟩ := prunes.entered regular looped
  refine ⟨⟨fixed, any⟩, looped'.passes, aliased,
    ⟨regular'.descending, sameAs_resolve regular'.descending⟩,
    fun i p at' ⟨w, all⟩ => ?_, fun strict => ?_⟩
  · obtain ⟨-, -, -, older⟩ := looped'.passesIn regular'.descending at'
    exact soleValue_eq_none mem_cons_self (Nat.ne_of_lt (older p (Array.mem_of_getElem? at'))) all
      (needed i p at')
  · obtain ⟨-, -, -, available, runs⟩ := prunes.strict regular looped strict
    exact ⟨available, runs⟩

/-- A loop that goes round as long as its parameter is not zero, up to where it is closed. -/
def spin : Function where
  sig := ⟨[.i32], none⟩
  blocks := #[{ params := #[0], leave := some ⟨.jump (some ⟨1, #[0]⟩), 0⟩ },
    { params := #[1], leave := some ⟨.branch 1 (some ⟨1, #[1]⟩) (some ⟨2, #[]⟩), 0⟩ }, {}]
  values := #[{ ty := .i32 }, { ty := .i32 }]

theorem pruneLoop_faithful_spin : let h : LoopHeader :=
  { block := 1, entry := ⟨0, 0⟩, backEdges := #[⟨1, 0⟩] }
    let g := spin.pruneLoop h.block h.edges
    (do
      let (_, s) ← entry { interruptMode := .signal } spin.sig 0 []
      let (_, s) ← Build.each { interruptMode := .signal } [(.loop .empty, 0), (.localGet 0, 0),
        (.brIf 0, 0)] s
      return (s.func, s.control.head?.map (·.kind))) = Except.ok (spin, some (.loop (some h))) ∧
    spin.Strict ∧ (g.block 1).params = #[] ∧ g.sameAs 1 = some 0 ∧ spin.DoneBy g := by
  have edges (r : EdgeRef) (e : Edge) (found : spin.edge? r = some e) :
      r = ⟨0, 0⟩ ∧ e = ⟨1, #[0]⟩ ∨ r = ⟨1, 0⟩ ∧ e = ⟨1, #[1]⟩ ∨ r = ⟨1, 1⟩ ∧ e = ⟨2, #[]⟩ := by
    obtain ⟨_ | _ | _ | b, _ | _ | i⟩ := r <;> simp_all [spin, edge?, block, Exit.edges]
  have params (b q : Nat) (mem : q ∈ (spin.block b).params) : b = q ∧ q < 2 := by
    obtain _ | _ | _ | b := b <;> simp_all [spin, block]
  have steps (b : Nat) : (spin.block b).steps = #[] := by
    obtain _ | _ | _ | b := b <;> rfl
  have own (x : Nat) : spin.sameAs x = none := by
    obtain _ | _ | x := x <;> simp [spin, sameAs]
  have defined (b k x : Nat) (there : spin.DefinedAt b k x) : b = x ∧ k = 0 := by
    cases k with
    | zero => exact ⟨(params b x there).1, rfl⟩
    | succ k => simp [DefinedAt, steps] at there
  have regular : spin.Regular :=
    { entry := by decide
      descending := fun x w same => by simp [own] at same
      param_lt := fun b q mem => (params b q mem).2
      param_own := fun b q _ => own q
      param_once := fun b => by obtain _ | _ | _ | b := b <;> simp [spin, block]
      param_apart := fun b c q one two => (params b q one).1.trans (params c q two).1.symm
      target_lt := fun r e found => by
        obtain ⟨-, rfl⟩ | ⟨-, rfl⟩ | ⟨-, rfl⟩ := edges r e found <;> decide }
  have looped : spin.Looped { block := 1, entry := ⟨0, 0⟩, backEdges := #[⟨1, 0⟩] } :=
    { ne_entry := by decide
      passes := fun r mem => by
        simp only [LoopHeader.edges, mem_cons, not_mem_nil, or_false] at mem
        obtain rfl | rfl := mem
        · exact ⟨#[0], rfl, rfl⟩
        · exact ⟨#[1], rfl, rfl⟩
      only := fun r e found into => by
        obtain ⟨rfl, -⟩ | ⟨rfl, -⟩ | ⟨-, rfl⟩ := edges r e found
        · decide
        · decide
        · cases into
      once := by decide
      entered := fun args edge a p mem into => by
        cases Option.some.inj edge
        obtain ⟨rfl, -⟩ := params 1 p into
        simp at mem
        omega }
  have strict : spin.Strict :=
    { own := fun _ _ x _ => own x
      once := fun a j b k x one two => by
        obtain ⟨rfl, rfl⟩ := defined a j x one
        obtain ⟨rfl, rfl⟩ := defined b k a two
        exact ⟨rfl, rfl⟩
      uses := fun b k x _ used => by
        suffices x ∈ (spin.block b).params from ⟨b, 0, this, .inl ⟨rfl, Nat.zero_le k⟩⟩
        cases used with
        | step there => simp [steps] at there
        | @exit l u _ left mem =>
          rw [resolve_of_none (own u)]
          obtain _ | _ | _ | b := b
          · cases Option.some.inj left
            cases mem
          · cases Option.some.inj left
            exact Array.mem_def.2 mem
          · cases left
          · cases left
        | @edge i e u _ found mem =>
          rw [resolve_of_none (own u)]
          obtain ⟨same, rfl⟩ | ⟨same, rfl⟩ | ⟨same, rfl⟩ := edges _ e found
          · cases same
            exact mem
          · cases same
            exact mem
          · simp at mem }
  obtain ⟨-, -, -, -, -, meaning⟩ := pruneLoop_faithful regular looped
  exact ⟨by decide +kernel, strict, by decide +kernel, by decide +kernel, (meaning strict).2⟩

end Function
end Wasmill.Ssa

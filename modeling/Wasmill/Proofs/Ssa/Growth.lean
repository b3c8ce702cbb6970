import Wasmill.Ssa.Function

/-! How a function grows while it is built.

Compiling adds values, blocks, instructions and exits. It also fills in edges, and at the end of a
loop takes parameters away again. `Grows g f` says that `f` is what became of `g`: everything that
was finished in `g` still means the same. -/
namespace Wasmill.Ssa
open Array
variable {r : EdgeRef} {v b w : Nat}
namespace Function

/-! ### Fields after a change -/

section
variable (f : Function)

theorem block_modifyBlock (b c : Nat) (g : Block → Block) :
    (f.modifyBlock b g).block c = if b = c ∧ c < f.blocks.size then g (f.block c)
      else f.block c := by
  simp only [block, modifyBlock, getD_eq_getD_getElem?, getElem?_modify]
  by_cases same : b = c
  · by_cases inside : c < f.blocks.size
    · simp [same, inside]
    · simp [same, inside]
  · simp [same]

@[simp] theorem modifyBlock_values (b : Nat) (g : Block → Block) :
    (f.modifyBlock b g).values = f.values := rfl

@[simp] theorem modifyBlock_size (b : Nat) (g : Block → Block) :
    (f.modifyBlock b g).blocks.size = f.blocks.size := by simp [modifyBlock]

@[simp] theorem modifyBlock_sameAs (b : Nat) (g : Block → Block) (v : Nat) :
    (f.modifyBlock b g).sameAs v = f.sameAs v := rfl

@[simp] theorem modifyBlock_valueTy (b : Nat) (g : Block → Block) (v : Nat) :
    (f.modifyBlock b g).valueTy v = f.valueTy v := rfl

/-- A block that does not exist looks like one that was just made. -/
theorem block_of_le (h : f.blocks.size ≤ b) : f.block b = {} := by
  simp [block, getD_eq_getD_getElem?, getElem?_eq_none h]

@[simp] theorem newBlock_block (b : Nat) : f.newBlock.2.block b = f.block b := by
  simp only [newBlock, block, getD_eq_getD_getElem?, getElem?_push]
  split
  · next h => simp [h]
  · rfl

@[simp] theorem newBlock_size : f.newBlock.2.blocks.size = f.blocks.size + 1 := by simp [newBlock]

section
variable (ty : ValType)

@[simp] theorem newValue_block (b : Nat) : (f.newValue ty).2.block b = f.block b := rfl

@[simp] theorem newValue_blocks : (f.newValue ty).2.blocks = f.blocks := rfl

@[simp] theorem newValue_size : (f.newValue ty).2.values.size = f.values.size + 1 := by
  simp [newValue]

@[simp] theorem newValue_sameAs (v : Nat) : (f.newValue ty).2.sameAs v = f.sameAs v := by
  simp only [sameAs, newValue, getElem?_push]
  split
  · next h => simp [h]
  · rfl

theorem newValue_valueTy_of_lt (h : v < f.values.size) :
    (f.newValue ty).2.valueTy v = f.valueTy v := by
  simp [valueTy, newValue, getElem?_push, Nat.ne_of_lt h]

@[simp] theorem newValue_valueTy_self : (f.newValue ty).2.valueTy f.values.size = ty := by
  simp [valueTy, newValue]

end

theorem sameAs_lt (h : f.sameAs v = some w) : v < f.values.size := by
  rcases Nat.lt_or_ge v f.values.size with lt | ge
  · exact lt
  · simp [sameAs, getElem?_eq_none ge] at h

theorem modifyEdge_block (r : EdgeRef) (g : Option Edge → Option Edge) (b : Nat) :
    ((f.modifyEdge r g).block b).params = (f.block b).params ∧
      ((f.modifyEdge r g).block b).steps = (f.block b).steps := by
  rw [modifyEdge, block_modifyBlock]
  split <;> exact ⟨rfl, rfl⟩

end

/-! ### Aliases -/

/-- Aliases lead to values that are older. -/
def Descending (f : Function) : Prop := ∀ v w : Nat, f.sameAs v = some w → w < v

section
variable {f : Function}

theorem resolve_of_none (h : f.sameAs v = none) : f.resolve v = v := by
  unfold resolve
  cases f.values.size with
  | zero => rfl
  | succ n => simp [follow, h]

section
variable (down : f.Descending)
include down

theorem follow_le (n : Nat) (v : Nat) : f.follow n v ≤ v := by
  induction n generalizing v with
  | zero => exact Nat.le_refl v
  | succ n ih =>
    simp only [follow]
    split
    · next w h => exact Nat.le_of_lt (Nat.lt_of_le_of_lt (ih w) (down v w h))
    · exact Nat.le_refl v

/-- Following one more alias changes nothing once there are as many as values below. -/
theorem follow_succ {n : Nat} (h : v ≤ n) : f.follow (n + 1) v = f.follow n v := by
  induction n generalizing v with
  | zero =>
    have none : f.sameAs v = none := by
      cases found : f.sameAs v with
      | none => rfl
      | some w => have := down v w found; omega
    simp [follow, none]
  | succ n ih =>
    rw [follow, follow]
    cases found : f.sameAs v with
    | none => rfl
    | some w => exact ih (by have := down v w found; omega)

theorem resolve_of_sameAs (h : f.sameAs v = some w) : f.resolve v = f.resolve w := by
  have inside := f.sameAs_lt h
  have older := down v w h
  obtain ⟨n, size⟩ : ∃ n, f.values.size = n + 1 := ⟨f.values.size - 1, by omega⟩
  rw [resolve, resolve, size, follow_succ down (show w ≤ n by omega)]
  simp [follow, h]

theorem resolve_le (v : Nat) : f.resolve v ≤ v := follow_le down _ v

theorem sameAs_resolve (v : Nat) : f.sameAs (f.resolve v) = none := by
  induction v using Nat.strongRecOn with
  | ind v ih =>
    cases found : f.sameAs v with
    | none => rw [resolve_of_none found]; exact found
    | some w => rw [resolve_of_sameAs down found]; exact ih w (down v w found)

theorem resolve_resolve (v : Nat) : f.resolve (f.resolve v) = f.resolve v :=
  resolve_of_none (sameAs_resolve down v)

end

/-- What stands for a value in an earlier function stands for it still. -/
theorem resolve_of_aliases {g : Function} (older : g.Descending) (down : f.Descending)
    (kept : ∀ v w, g.sameAs v = some w → f.sameAs v = some w) (v : Nat) :
    f.resolve (g.resolve v) = f.resolve v := by
  induction v using Nat.strongRecOn with
  | ind v ih =>
    cases found : g.sameAs v with
    | none => rw [resolve_of_none found]
    | some w =>
      rw [resolve_of_sameAs older found, resolve_of_sameAs down (kept v w found)]
      exact ih w (older v w found)

end

/-! ### Soundness -/

/-- What holds of a function at any time while it is built, whatever the types of its values. -/
structure Regular (f : Function) : Prop where
  entry : 0 < f.blocks.size
  descending : f.Descending
  /-- Parameters exist, and stand for themselves. -/
  param_lt : ∀ b, ∀ p : Nat, p ∈ (f.block b).params → p < f.values.size
  param_own : ∀ b, ∀ p : Nat, p ∈ (f.block b).params → f.sameAs p = none
  param_once : ∀ b, (f.block b).params.toList.Nodup
  param_apart : ∀ b c, ∀ p : Nat, p ∈ (f.block b).params → p ∈ (f.block c).params → b = c
  /-- Edges lead to blocks that exist. -/
  target_lt : ∀ r e, f.edge? r = some e → e.block < f.blocks.size

structure Sound (f : Function) : Prop extends f.Regular where
  alias_ty : ∀ v w : Nat, f.sameAs v = some w → f.valueTy w = f.valueTy v

theorem Sound.resolve_ty {f : Function} (sound : f.Sound) (v : Nat) :
    f.valueTy (f.resolve v) = f.valueTy v := by
  induction v using Nat.strongRecOn with
  | ind v ih =>
    cases found : f.sameAs v with
    | none => rw [resolve_of_none found]
    | some w =>
      rw [resolve_of_sameAs sound.descending found, ih w (sound.descending v w found)]
      exact sound.alias_ty v w found

end Function

/-! ### Growth -/

namespace Exit

/-- The exit without its edges. -/
def bare : Exit → Exit
  | .jump _ => .jump none
  | .branch cond _ _ => .branch cond none none
  | .table index targets _ => .table index (targets.map fun _ => none) none
  | .ret value => .ret value
  | .trap t => .trap t

theorem edges_length_of_bare {a b : Exit} (h : a.bare = b.bare) :
    a.edges.length = b.edges.length := by
  cases a <;> cases b <;> simp_all [bare, edges]
  next targets _ _ others _ =>
    have sizes := congrArg Array.size h.2
    simpa using sizes

theorem edges_modifyEdge (exit : Exit) (index i : Nat) (g : Option Edge → Option Edge) :
    (exit.modifyEdge index g).edges[i]? =
      if index = i then (exit.edges[i]?).map g else exit.edges[i]? := by
  cases exit with
  | jump dest => rcases index with _ | index <;> rcases i with _ | i <;> simp [modifyEdge, edges]
  | branch cond t e =>
    rcases index with _ | _ | index <;> rcases i with _ | _ | i <;> simp [modifyEdge, edges]
  | table v targets default =>
    simp only [modifyEdge]
    split
    · next last =>
      subst last
      simp only [edges, List.getElem?_append, length_toList]
      by_cases inside : i < targets.size
      · simp [inside, show targets.size ≠ i by omega]
      · by_cases here : i = targets.size
        · simp [here]
        · obtain ⟨k, rfl⟩ : ∃ k, i = targets.size + (k + 1) := ⟨i - targets.size - 1, by omega⟩
          simp
    · next other =>
      simp only [edges, toList_modify, List.getElem?_append, List.length_modify, length_toList,
        List.getElem?_modify]
      by_cases inside : i < targets.size
      · by_cases here : index = i <;> simp [inside, here]
      · by_cases here : index = i
        · have beyond : i - targets.size ≠ 0 := by omega
          obtain ⟨k, gap⟩ : ∃ k, i - targets.size = k + 1 := ⟨i - targets.size - 1, by omega⟩
          simp [inside, here, gap]
        · simp [inside, here]
  | ret value => simp [modifyEdge, edges]
  | trap t => simp [modifyEdge, edges]

@[simp] theorem bare_modifyEdge (exit : Exit) (index : Nat) (g : Option Edge → Option Edge) :
    (exit.modifyEdge index g).bare = exit.bare := by
  cases exit with
  | jump dest => rcases index with _ | index <;> rfl
  | branch cond t e => rcases index with _ | _ | index <;> rfl
  | table v targets default =>
    simp only [modifyEdge]
    split
    · rfl
    · simp only [bare]
      congr 1
      apply ext_getElem?
      intro i
      simp only [getElem?_map, getElem?_modify]
      split <;> simp [Function.comp_def]
  | ret value => rfl
  | trap t => rfl

end Exit

namespace Function
variable {e : Edge} {t : Nat}

/-- An edge to block `t` passed `args` in `g` and passes `args'` in `f`. Each of the parameters that
`t` had either is still there and gets what it got, or stands for what it got and is older than all
that are still there. -/
structure Carries (g f : Function) (t : Nat) (args args' : Array Value) : Prop where
  subset : ∀ q : Nat, q ∈ (f.block t).params → q ∈ (g.block t).params
  size : args.size = (g.block t).params.size → args'.size = (f.block t).params.size
  each : ∀ (i : Nat) (p a : Nat), (g.block t).params[i]? = some p → args[i]? = some a →
    (∃ j : Nat, (f.block t).params[j]? = some p ∧ args'[j]? = some a) ∨
      (f.resolve p = f.resolve a ∧ ∀ q : Nat, q ∈ (f.block t).params → f.resolve p < q)

/-- An edge that was not filled in can become any edge. -/
def EdgeGrows (g f : Function) : Option Edge → Option Edge → Prop
  | none, _ => True
  | some e, d => ∃ args, d = some ⟨e.block, args⟩ ∧ Carries g f e.block e.args args

structure LeaveGrows (g f : Function) (l l' : Leave) : Prop where
  srcloc : l'.srcloc = l.srcloc
  bare : l'.exit.bare = l.exit.bare
  edges : ∀ (i : Nat) (d : Option Edge), l.exit.edges[i]? = some d →
    ∃ d', l'.exit.edges[i]? = some d' ∧ EdgeGrows g f d d'

structure Grows (g f : Function) : Prop where
  sig : f.sig = g.sig
  values : g.values.size ≤ f.values.size
  types : ∀ v : Nat, v < g.values.size → f.valueTy v = g.valueTy v
  aliases : ∀ v w : Nat, g.sameAs v = some w → f.sameAs v = some w
  /-- Only parameters of blocks other than the entry become aliases. -/
  kept : ∀ v : Nat, v < g.values.size → g.sameAs v = none → (∀ b, b ≠ 0 → v ∉ (g.block b).params) →
    f.sameAs v = none ∧ ∀ b, b ≠ 0 → v ∉ (f.block b).params
  blocks : g.blocks.size ≤ f.blocks.size
  steps : ∀ b, (g.block b).steps.toList <+: (f.block b).steps.toList
  left : ∀ b l, (g.block b).leave = some l →
    (f.block b).steps = (g.block b).steps ∧
      ∃ l', (f.block b).leave = some l' ∧ LeaveGrows g f l l'

section
variable {g h f : Function}

theorem Carries.refl (g : Function) (t : Nat) (args : Array Value) : Carries g g t args args where
  subset _ mem := mem
  size same := same
  each i _ _ here passed := .inl ⟨i, here, passed⟩

theorem Carries.trans {as bs cs : Array Value} (old : h.Descending) (down : f.Descending)
    (aliases : ∀ v w : Nat, h.sameAs v = some w → f.sameAs v = some w) (first : Carries g h t as bs)
    (second : Carries h f t bs cs) : Carries g f t as cs where
  subset q mem := first.subset q (second.subset q mem)
  size same := second.size (first.size same)
  each i p a here passed := by
    rcases first.each i p a here passed with ⟨j, here, passed⟩ | ⟨same, below⟩
    · exact second.each j p a here passed
    · refine .inr ⟨?_, fun q mem => ?_⟩
      · rw [← resolve_of_aliases old down aliases p, same, resolve_of_aliases old down aliases a]
      · rw [← resolve_of_aliases old down aliases p]
        exact Nat.lt_of_le_of_lt (resolve_le down _) (below q (second.subset q mem))

theorem Grows.trans (old : h.Sound) (down : f.Sound) (first : Grows g h) (second : Grows h f) :
    Grows g f where
  sig := second.sig.trans first.sig
  values := Nat.le_trans first.values second.values
  types v lt := (second.types v (Nat.lt_of_lt_of_le lt first.values)).trans (first.types v lt)
  aliases v w same := second.aliases v w (first.aliases v w same)
  kept v lt own apart := by
    obtain ⟨own, apart⟩ := first.kept v lt own apart
    exact second.kept v (Nat.lt_of_lt_of_le lt first.values) own apart
  blocks := Nat.le_trans first.blocks second.blocks
  steps b := (first.steps b).trans (second.steps b)
  left b l found := by
    obtain ⟨steps, m, middle, inner⟩ := first.left b l found
    obtain ⟨steps', n, last, outer⟩ := second.left b m middle
    refine ⟨steps'.trans steps, n, last, outer.srcloc.trans inner.srcloc,
      outer.bare.trans inner.bare, fun i d edge => ?_⟩
    obtain ⟨d', edge', grown⟩ := inner.edges i d edge
    obtain ⟨d'', edge'', regrown⟩ := outer.edges i d' edge'
    refine ⟨d'', edge'', ?_⟩
    cases d with
    | none => trivial
    | some e =>
      obtain ⟨args, rfl, carried⟩ := grown
      obtain ⟨args', rfl, recarried⟩ := regrown
      exact ⟨args', rfl, carried.trans old.descending down.descending second.aliases recarried⟩

theorem Grows.resolve (old : g.Descending) (down : f.Descending) (grows : Grows g f) (v : Nat) :
    f.resolve (g.resolve v) = f.resolve v := resolve_of_aliases old down grows.aliases v

theorem edge?_eq_some : f.edge? r = some e ↔ ∃ l, (f.block r.block).leave = some l ∧
    l.exit.edges[r.index]? = some (some e) := by
  cases found : (f.block r.block).leave with
  | none => simp [edge?, found]
  | some l =>
    cases at' : l.exit.edges[r.index]? with
    | none => simp [edge?, found, at']
    | some d => simp [edge?, found, at']

/-- An edge that was filled in. -/
theorem Grows.edge (grows : Grows g f) (found : g.edge? r = some e) :
    ∃ args, f.edge? r = some ⟨e.block, args⟩ ∧ Carries g f e.block e.args args := by
  obtain ⟨l, leaves, edge⟩ := edge?_eq_some.1 found
  obtain ⟨_, l', leaves', grown⟩ := grows.left _ l leaves
  obtain ⟨d', edge', args, rfl, carried⟩ := grown.edges r.index _ edge
  exact ⟨args, edge?_eq_some.2 ⟨l', leaves', edge'⟩, carried⟩

end

/-! ### Growth that takes nothing away -/

/-- Growth in which no parameter goes: what is there stays as it is, and blocks to which an edge
leads get no more parameters. -/
structure Adds (g f : Function) : Prop where
  sig : f.sig = g.sig
  values : g.values.size ≤ f.values.size
  types : ∀ v : Nat, v < g.values.size → f.valueTy v = g.valueTy v
  aliases : ∀ v : Nat, f.sameAs v = g.sameAs v
  blocks : g.blocks.size ≤ f.blocks.size
  steps : ∀ b, (g.block b).steps.toList <+: (f.block b).steps.toList
  left : ∀ b l, (g.block b).leave = some l →
    (f.block b).steps = (g.block b).steps ∧
      ∃ l', (f.block b).leave = some l' ∧ l'.srcloc = l.srcloc ∧ l'.exit.bare = l.exit.bare
  edges : ∀ r e, g.edge? r = some e → f.edge? r = some e
  params : ∀ r e, g.edge? r = some e → (f.block e.block).params = (g.block e.block).params
  fresh : ∀ b, ∀ q : Nat, q ∈ (f.block b).params → q ∈ (g.block b).params ∨ g.values.size ≤ q

section
variable {g h f : Function}

theorem Adds.grows (adds : Adds g f) : Grows g f := by
  refine { adds with aliases := fun v w same =>
    (adds.aliases v).trans same, kept := fun v lt own apart => ?_, left := fun b l found => ?_ }
  · refine ⟨(adds.aliases v).trans own, fun b other mem => ?_⟩
    rcases adds.fresh b v mem with old | new
    · exact apart b other old
    · exact absurd lt (Nat.not_lt_of_le new)
  · obtain ⟨steps, l', found', srcloc, bare⟩ := adds.left b l found
    refine ⟨steps, l', found', srcloc, bare, fun i d edge => ?_⟩
    have inside : i < l'.exit.edges.length := by
      rw [Exit.edges_length_of_bare bare]
      exact (List.getElem?_eq_some_iff.1 edge).1
    refine ⟨l'.exit.edges[i], List.getElem?_eq_getElem inside, ?_⟩
    cases d with
    | none => trivial
    | some e =>
      have before : g.edge? ⟨b, i⟩ = some e := edge?_eq_some.2 ⟨l, found, edge⟩
      obtain ⟨m, found'', after⟩ := edge?_eq_some.1 (adds.edges _ e before)
      cases found'.symm.trans found''
      rw [List.getElem?_eq_getElem inside, Option.some.injEq] at after
      refine ⟨e.args, after, ?_⟩
      have params := adds.params _ e before
      exact
        { subset := fun q mem => params ▸ mem
          size := fun same => by rw [params]; exact same
          each := fun j p a here passed => .inl ⟨j, by rw [params]; exact here, passed⟩ }

theorem Adds.refl (g : Function) : Adds g g where
  sig := rfl
  values := Nat.le_refl _
  types _ _ := rfl
  aliases _ := rfl
  blocks := Nat.le_refl _
  steps _ := List.prefix_rfl
  left _ l found := ⟨rfl, l, found, rfl, rfl⟩
  edges _ _ found := found
  params _ _ _ := rfl
  fresh _ _ mem := .inl mem

theorem Grows.refl (g : Function) : Grows g g := (Adds.refl g).grows

theorem Adds.trans (first : Adds g h) (second : Adds h f) : Adds g f where
  sig := second.sig.trans first.sig
  values := Nat.le_trans first.values second.values
  types v lt := (second.types v (Nat.lt_of_lt_of_le lt first.values)).trans (first.types v lt)
  aliases v := (second.aliases v).trans (first.aliases v)
  blocks := Nat.le_trans first.blocks second.blocks
  steps b := (first.steps b).trans (second.steps b)
  left b l found := by
    obtain ⟨steps, m, middle, srcloc, bare⟩ := first.left b l found
    obtain ⟨steps', n, last, srcloc', bare'⟩ := second.left b m middle
    exact ⟨steps'.trans steps, n, last, srcloc'.trans srcloc, bare'.trans bare⟩
  edges r e found := second.edges r e (first.edges r e found)
  params r e found := (second.params r e (first.edges r e found)).trans (first.params r e found)
  fresh b q mem := by
    rcases second.fresh b q mem with old | new
    · exact first.fresh b q old
    · exact .inr (Nat.le_trans first.values new)

theorem Sound.alias_ty_of (sound : g.Sound) (aliases : ∀ v : Nat, f.sameAs v = g.sameAs v)
    (types : ∀ v : Nat, v < g.values.size → f.valueTy v = g.valueTy v)
    (same : f.sameAs v = some w) : f.valueTy w = f.valueTy v := by
  rw [aliases] at same
  have lt := g.sameAs_lt same
  rw [types v lt, types w (Nat.lt_trans (sound.descending v w same) lt)]
  exact sound.alias_ty v w same

/-- Soundness is kept as long as no block gets a parameter. -/
theorem Sound.of_params (sound : g.Sound) (aliases : ∀ v : Nat, f.sameAs v = g.sameAs v)
    (values : g.values.size ≤ f.values.size)
    (types : ∀ v : Nat, v < g.values.size → f.valueTy v = g.valueTy v)
    (blocks : g.blocks.size ≤ f.blocks.size)
    (params : ∀ b, (f.block b).params = (g.block b).params)
    (target_lt : ∀ r e, f.edge? r = some e → e.block < f.blocks.size) : f.Sound where
  entry := Nat.lt_of_lt_of_le sound.entry blocks
  descending v w same := sound.descending v w ((aliases v).symm.trans same)
  alias_ty v w same := sound.alias_ty_of aliases types same
  param_lt b p mem := Nat.lt_of_lt_of_le (sound.param_lt b p (params b ▸ mem)) values
  param_own b p mem := (aliases p).trans (sound.param_own b p (params b ▸ mem))
  param_once b := by rw [params b]; exact sound.param_once b
  param_apart b c p one two := sound.param_apart b c p (params b ▸ one) (params c ▸ two)
  target_lt := target_lt

end

/-! ### The single changes -/

section
variable {f : Function} {g : Option Edge → Option Edge} {upd : Block → Block}

theorem edge?_eq_of_leave {g : Function} (h : (f.block r.block).leave = (g.block r.block).leave) :
    f.edge? r = g.edge? r := by
  simp [edge?, h]

theorem newValue_adds (f : Function) (ty : ValType) : Adds f (f.newValue ty).2 :=
  { Adds.refl f with
    values := by simp
    types _ lt := newValue_valueTy_of_lt f ty lt
    aliases := newValue_sameAs f ty }

theorem Sound.newValue (sound : f.Sound) (ty : ValType) : (f.newValue ty).2.Sound :=
  sound.of_params (newValue_sameAs f ty) (by simp) (newValue_adds f ty).types (Nat.le_refl _)
    (fun _ => rfl) sound.target_lt

theorem newBlock_edge? (f : Function) (r : EdgeRef) : f.newBlock.2.edge? r = f.edge? r :=
  edge?_eq_of_leave (by simp)

theorem newBlock_adds (f : Function) : Adds f f.newBlock.2 :=
  { Adds.refl f with
    blocks := by simp
    steps b := by simp
    left b l found := ⟨by simp, l, by simpa using found, rfl, rfl⟩
    edges r e found := (newBlock_edge? f r).trans found
    params _ _ _ := by simp
    fresh b q mem := .inl (by simpa using mem) }

theorem Sound.newBlock (sound : f.Sound) : f.newBlock.2.Sound := by
  refine sound.of_params (fun _ => rfl) (Nat.le_refl _) (fun _ _ => rfl) (by simp) (by simp)
    fun r e found => ?_
  rw [newBlock_edge?] at found
  have := sound.target_lt r e found
  simp
  omega

/-- A change to a block that is not left yet and keeps its parameters. -/
theorem modifyBlock_adds (unleft : (f.block b).leave = none)
    (params : (upd (f.block b)).params = (f.block b).params)
    (steps : (f.block b).steps.toList <+: (upd (f.block b)).steps.toList) :
    Adds f (f.modifyBlock b upd) :=
  { Adds.refl f with
    blocks := by simp
    steps c := by
      rw [block_modifyBlock]
      split
      · next here => rw [← here.1]; exact steps
      · exact List.prefix_rfl
    left c l found := by
      have other : b ≠ c := by rintro rfl; simp [unleft] at found
      have same : (f.modifyBlock b upd).block c = f.block c := by simp [block_modifyBlock, other]
      rw [same]
      exact ⟨rfl, l, found, rfl, rfl⟩
    edges r e found := by
      have other : b ≠ r.block := by rintro rfl; simp [edge?, unleft] at found
      rw [edge?_eq_of_leave (show _ = (f.block r.block).leave by simp [block_modifyBlock, other])]
      exact found
    params r e _ := by
      rw [block_modifyBlock]
      split
      · next here => rw [← here.1]; exact params
      · rfl
    fresh c q mem := by
      rw [block_modifyBlock] at mem
      split at mem
      · next here => rw [← here.1] at mem ⊢; exact .inl (params ▸ mem)
      · exact .inl mem }

theorem Sound.modifyBlock (sound : f.Sound) (params : (upd (f.block b)).params = (f.block b).params)
    (targets : ∀ l e, (upd (f.block b)).leave = some l → some e ∈ l.exit.edges →
      e.block < f.blocks.size) :
    (f.modifyBlock b upd).Sound := by
  refine sound.of_params (fun _ => rfl) (Nat.le_refl _) (fun _ _ => rfl) (by simp) (fun c => ?_)
    fun r e found => ?_
  · rw [block_modifyBlock]
    split
    · next here => rw [← here.1]; exact params
    · rfl
  · rw [modifyBlock_size]
    obtain ⟨l, leaves, edge⟩ := edge?_eq_some.1 found
    rw [block_modifyBlock] at leaves
    split at leaves
    · next here =>
      rw [← here.1] at leaves
      exact targets l e leaves (List.mem_of_getElem? edge)
    · exact sound.target_lt r e (edge?_eq_some.2 ⟨l, leaves, edge⟩)

/-- The edge of that number, be it filled in or not, if the block is left by an exit that has it. -/
def edgeAt? (f : Function) (r : EdgeRef) : Option (Option Edge) :=
  (f.block r.block).leave.bind fun l => l.exit.edges[r.index]?

theorem edge?_eq_join (f : Function) (r : EdgeRef) : f.edge? r = (f.edgeAt? r).join := by
  cases found : (f.block r.block).leave <;> simp [edge?, edgeAt?, found]

theorem edgeAt?_of_edge? (found : f.edge? r = some e) : f.edgeAt? r = some (some e) := by
  cases at' : f.edgeAt? r <;> simp_all [edge?_eq_join]

theorem lt_of_edgeAt? {d : Option Edge} (found : f.edgeAt? r = some d) :
    r.block < f.blocks.size := by
  rcases Nat.lt_or_ge r.block f.blocks.size with lt | ge
  · exact lt
  · simp [edgeAt?, f.block_of_le ge] at found

theorem edgeAt?_modifyEdge (f : Function) (r r' : EdgeRef) (g : Option Edge → Option Edge) :
    (f.modifyEdge r g).edgeAt? r' = if r = r' then (f.edgeAt? r').map g else f.edgeAt? r' := by
  simp only [edgeAt?, modifyEdge, block_modifyBlock]
  by_cases here : r.block = r'.block
  · by_cases inside : r'.block < f.blocks.size
    · cases found : (f.block r'.block).leave with
      | none => simp [here, inside]
      | some l =>
        by_cases index : r.index = r'.index
        · have same : r = r' := by cases r; cases r'; simp_all
          simp [inside, Exit.edges_modifyEdge, same]
        · have other : r ≠ r' := by rintro rfl; exact index rfl
          simp [here, inside, Exit.edges_modifyEdge, other, index]
    · simp [inside, f.block_of_le (Nat.le_of_not_lt inside)]
  · have other : r ≠ r' := by rintro rfl; exact here rfl
    simp [here, other]

theorem modifyEdge_left {l : Leave} (found : (f.block b).leave = some l) :
    ∃ l', ((f.modifyEdge r g).block b).leave = some l' ∧ l'.srcloc = l.srcloc ∧
      l'.exit.bare = l.exit.bare := by
  simp only [modifyEdge, block_modifyBlock]
  split
  · exact ⟨{ l with exit := l.exit.modifyEdge r.index g }, by simp [found], rfl, by simp⟩
  · exact ⟨l, found, rfl, rfl⟩

theorem modifyEdge_unleft (unleft : (f.block b).leave = none) :
    ((f.modifyEdge r g).block b).leave = none := by
  simp only [modifyEdge, block_modifyBlock]
  split
  · simp [unleft]
  · exact unleft

/-- Filling in an edge that waits. -/
theorem setEdge_adds (waits : f.edgeAt? r = some none) (dest : Edge) : Adds f (f.setEdge r dest) :=
  { Adds.refl f with
    blocks := by simp [setEdge, modifyEdge]
    steps b := by simp [setEdge, (f.modifyEdge_block r _ b).2]
    left b l found := ⟨(f.modifyEdge_block r _ b).2, modifyEdge_left found⟩
    edges r' e found := by
      have other : r ≠ r' := by rintro rfl; simp [edge?_eq_join, waits] at found
      rw [edge?_eq_join, setEdge, edgeAt?_modifyEdge, if_neg other, ← edge?_eq_join]
      exact found
    params _ e _ := (f.modifyEdge_block r _ e.block).1
    fresh b q mem := .inl ((f.modifyEdge_block r _ b).1 ▸ mem) }

theorem edge?_setEdge (waits : f.edgeAt? r = some none) (dest : Edge) (r' : EdgeRef) :
    (f.setEdge r dest).edge? r' = if r = r' then some dest else f.edge? r' := by
  rw [edge?_eq_join, setEdge, edgeAt?_modifyEdge]
  by_cases same : r = r'
  · subst same; simp [waits]
  · simp [same, edge?_eq_join]

theorem Sound.setEdge (sound : f.Sound) (waits : f.edgeAt? r = some none) {dest : Edge}
    (inside : dest.block < f.blocks.size) : (f.setEdge r dest).Sound := by
  have size : (f.setEdge r dest).blocks.size = f.blocks.size := by
    simp [Function.setEdge, Function.modifyEdge]
  refine sound.of_params (fun _ => rfl) (Nat.le_refl _) (fun _ _ => rfl) (Nat.le_of_eq size.symm)
    (fun b => (f.modifyEdge_block r _ b).1) fun r' e found => ?_
  rw [size]
  rw [edge?_setEdge waits] at found
  split at found
  · cases found; exact inside
  · exact sound.target_lt r' e found

section
variable (f : Function) (t : Nat) (ty : ValType)

theorem newParam_snd : (f.newParam t ty).2 = (f.newValue ty).2.modifyBlock t fun block =>
      { block with params := block.params.push f.values.size } := rfl

@[simp] theorem newParam_size : (f.newParam t ty).2.blocks.size = f.blocks.size := by
  simp [newParam_snd]

theorem newParam_params (c : Nat) : ((f.newParam t ty).2.block c).params =
      if t = c ∧ c < f.blocks.size then (f.block c).params.push f.values.size
        else (f.block c).params := by
  rw [newParam_snd, block_modifyBlock]
  by_cases here : t = c ∧ c < f.blocks.size
  · simp [here]
  · simp [here]

theorem newParam_block (c : Nat) : ((f.newParam t ty).2.block c).steps = (f.block c).steps ∧
      ((f.newParam t ty).2.block c).leave = (f.block c).leave := by
  rw [newParam_snd, block_modifyBlock]
  split <;> exact ⟨rfl, rfl⟩

theorem newParam_edge? (r : EdgeRef) : (f.newParam t ty).2.edge? r = f.edge? r :=
  edge?_eq_of_leave (f.newParam_block t ty r.block).2

end

theorem newParam_adds (alone : ∀ r e, f.edge? r = some e → e.block ≠ t) (ty : ValType) :
    Adds f (f.newParam t ty).2 :=
  { newValue_adds f ty with
    blocks := by simp
    steps b := (f.newParam_block t ty b).1 ▸ List.prefix_rfl
    left b l found := by
      rw [(f.newParam_block t ty b).1, (f.newParam_block t ty b).2]
      exact ⟨rfl, l, found, rfl, rfl⟩
    edges r e found := (f.newParam_edge? t ty r).trans found
    params r e found := by
      rw [newParam_params, if_neg]
      exact fun here => alone r e found here.1.symm
    fresh b q mem := by
      rw [newParam_params] at mem
      split at mem
      · rcases mem_push.1 mem with old | rfl
        · exact .inl old
        · exact .inr (Nat.le_refl _)
      · exact .inl mem }

theorem Sound.newParam (sound : f.Sound) (t : Nat) (ty : ValType) : (f.newParam t ty).2.Sound where
  entry := by rw [newParam_size]; exact sound.entry
  descending v w same := sound.descending v w ((newValue_sameAs f ty v).symm.trans same)
  alias_ty v w same := sound.alias_ty_of (newValue_sameAs f ty) (newValue_adds f ty).types same
  param_lt b p mem := by
    have grown : (f.newParam t ty).2.values.size = f.values.size + 1 := newValue_size f ty
    rw [grown]
    rw [newParam_params] at mem
    split at mem
    · rcases mem_push.1 mem with old | rfl
      · exact Nat.lt_succ_of_lt (sound.param_lt b p old)
      · exact Nat.lt_succ_self _
    · exact Nat.lt_succ_of_lt (sound.param_lt b p mem)
  param_own b p mem := by
    refine (newValue_sameAs f ty p).trans ?_
    rw [newParam_params] at mem
    split at mem
    · rcases mem_push.1 mem with old | rfl
      · exact sound.param_own b p old
      · exact Option.eq_none_iff_forall_not_mem.2 fun w same => Nat.lt_irrefl _ (f.sameAs_lt same)
    · exact sound.param_own b p mem
  param_once b := by
    rw [newParam_params]
    split
    · rw [toList_push, List.nodup_append]
      refine ⟨sound.param_once b, by simp, ?_⟩
      rintro p mem q new rfl
      rw [List.mem_singleton.1 new] at mem
      exact Nat.lt_irrefl _ (sound.param_lt b _ (mem_def.2 mem))
    · exact sound.param_once b
  param_apart b c p one two := by
    rw [newParam_params] at one two
    have inside := fun d mem => sound.param_lt d p mem
    split at one <;> split at two
    · next here there => exact here.1.symm.trans there.1
    · rcases mem_push.1 one with old | rfl
      · exact sound.param_apart b c p old two
      · exact absurd (inside c two) (Nat.lt_irrefl _)
    · rcases mem_push.1 two with old | rfl
      · exact sound.param_apart b c p one old
      · exact absurd (inside b one) (Nat.lt_irrefl _)
    · exact sound.param_apart b c p one two
  target_lt r e found := by
    rw [newParam_edge?] at found
    rw [newParam_size]
    exact sound.target_lt r e found

/-- Where aliases are the same, values stand for the same. -/
theorem resolve_congr {g : Function} (old : g.Descending) (down : f.Descending)
    (aliases : ∀ v : Nat, f.sameAs v = g.sameAs v) (v : Nat) : f.resolve v = g.resolve v := by
  rw [← resolve_of_aliases old down (fun v w same => (aliases v).trans same) v]
  exact resolve_of_none ((aliases _).trans (sameAs_resolve old v))

end
end Function
end Wasmill.Ssa

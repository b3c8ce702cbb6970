import Wasmill.Proofs.Ssa.Growth
import Wasmill.Ssa.Builder
import Wasmill.Ssa.Loop

/-! Loop parameters that go leave everything with the meaning it had.

A parameter is dropped when all edges into the header pass one value for it, or the parameter
itself. The edge that enters the loop passes values older than all parameters, so that value is
older too, and the alias descends. `Prunes` says what pruning comes to: such drops, one after
another. -/
namespace Wasmill.Ssa
open List Option
variable {α : Type} {i : Nat}

theorem getElem?_eraseIdxIfInBounds (xs : Array α) (i k : Nat) :
    (xs.eraseIdxIfInBounds i)[k]? = if k < i then xs[k]? else xs[k + 1]? := by
  rw [← Array.getElem?_toList, Array.toList_eraseIdxIfInBounds, getElem?_eraseIdx]
  simp

theorem size_eraseIdxIfInBounds (xs : Array α) (i : Nat) :
    (xs.eraseIdxIfInBounds i).size = if i < xs.size then xs.size - 1 else xs.size := by
  simp [← Array.length_toList, length_eraseIdx]

theorem mem_eraseIdxIfInBounds {xs : Array α} {x : α} :
    x ∈ xs.eraseIdxIfInBounds i ↔ ∃ j, j ≠ i ∧ xs[j]? = some x := by
  rw [Array.mem_def, Array.toList_eraseIdxIfInBounds, mem_eraseIdx_iff_getElem?]
  simp

def LoopHeader.edges (h : LoopHeader) : List EdgeRef := h.entry :: h.backEdges.toList

namespace Function

/-- The header is entered by its edges only, and the one from outside passes values that are older
than all parameters. -/
structure Looped (f : Function) (h : LoopHeader) : Prop where
  ne_entry : h.block ≠ 0
  passes : ∀ r ∈ h.edges, ∃ args, f.edge? r = some ⟨h.block, args⟩ ∧
    args.size = (f.block h.block).params.size
  only : ∀ r e, f.edge? r = some e → e.block = h.block → r ∈ h.edges
  once : h.edges.Nodup
  entered : ∀ args, f.edge? h.entry = some ⟨h.block, args⟩ →
    ∀ a p : Nat, a ∈ args → p ∈ (f.block h.block).params → a < p

/-- The edges into the header pass values of the types of its parameters. -/
def Suits (f : Function) (h : LoopHeader) : Prop :=
  ∀ r ∈ h.edges, ∀ args, f.edge? r = some ⟨h.block, args⟩ → ∀ i a p : Nat, args[i]? = some a →
    (f.block h.block).params[i]? = some p → f.valueTy a = f.valueTy p

/-- The edge from outside passes `a` for the parameter `p`. -/
def PassesIn (f : Function) (h : LoopHeader) (p a : Value) : Prop :=
  ∃ (i : Nat) (args : Array Value), f.edge? h.entry = some ⟨h.block, args⟩ ∧
    (f.block h.block).params[i]? = some p ∧ args[i]? = some a

section
variable {f : Function} {h : LoopHeader} {edges : List EdgeRef} {index param v : Nat}
  {args : Array Value} {r : EdgeRef}

theorem soleValue_eq_some (is : f.soleValue edges index param = some v) (mem : r ∈ edges)
    (other : f.incoming index r ≠ param) : f.incoming index r = v := by
  have passed : f.incoming index r ∈ (edges.map (f.incoming index)).filter (· ≠ param) := by
    simp only [mem_filter, List.mem_map, decide_eq_true_eq]
    exact ⟨⟨r, mem, rfl⟩, other⟩
  unfold soleValue at is
  split at is
  · next w rest found =>
    split at is
    · next all =>
      cases is
      rw [found] at passed
      rcases mem_cons.1 passed with here | later
      · exact here
      · simpa using List.all_eq_true.1 all _ later
    · cases is
  · cases is

theorem incoming_eq {b a : Nat} (edge : f.edge? r = some ⟨b, args⟩)
    (passed : args[index]? = some a) :
    f.incoming index r = f.resolve a := by
  simp [incoming, edge, passed]

/-- What the edge from outside passes is older than all parameters. -/
theorem Looped.passesIn (looped : f.Looped h) (down : f.Descending)
    (here : (f.block h.block).params[index]? = some param) :
    ∃ a, f.PassesIn h param a ∧ f.incoming index h.entry = f.resolve a ∧
      ∀ q : Nat, q ∈ (f.block h.block).params → f.incoming index h.entry < q := by
  obtain ⟨args, edge, size⟩ := looped.passes h.entry mem_cons_self
  have bound : index < args.size := size ▸ (Array.getElem?_eq_some_iff.1 here).1
  have passed : args[index]? = some args[index] := Array.getElem?_eq_getElem bound
  refine ⟨args[index], ⟨index, args, edge, here, passed⟩, incoming_eq edge passed, fun q mem => ?_⟩
  rw [incoming_eq edge passed]
  exact Nat.lt_of_le_of_lt (resolve_le down _)
    (looped.entered args edge _ q (Array.getElem_mem bound) mem)

/-! ### The parts of dropping a parameter -/

/-- Only edges change, and those once each. -/
theorem edgeAt?_foldl_modifyEdge (g : Option Edge → Option Edge) (f : Function)
    (once : edges.Nodup) (r : EdgeRef) :
    (edges.foldl (fun f e => f.modifyEdge e g) f).edgeAt? r =
      if r ∈ edges then (f.edgeAt? r).map g else f.edgeAt? r := by
  induction edges generalizing f with
  | nil => simp
  | cons e rest ih =>
    rw [nodup_cons] at once
    rw [foldl_cons, ih _ once.2, edgeAt?_modifyEdge]
    by_cases same : e = r
    · subst same; simp [once.1]
    · by_cases later : r ∈ rest
      · simp [later, same]
      · simp [later, same, Ne.symm same]

theorem foldl_modifyEdge_fields (g : Option Edge → Option Edge) (f : Function)
    (edges : List EdgeRef) :
    let f' := edges.foldl (fun f e => f.modifyEdge e g) f
    f'.sig = f.sig ∧ f'.values = f.values ∧ f'.blocks.size = f.blocks.size ∧
      ∀ b, (f'.block b).params = (f.block b).params ∧ (f'.block b).steps = (f.block b).steps ∧
        ((f.block b).leave = none → (f'.block b).leave = none) ∧
        ∀ l, (f.block b).leave = some l → ∃ l', (f'.block b).leave = some l' ∧
          l'.srcloc = l.srcloc ∧ l'.exit.bare = l.exit.bare := by
  induction edges generalizing f with
  | nil => exact ⟨rfl, rfl, rfl, fun b => ⟨rfl, rfl, id, fun l found => ⟨l, found, rfl, rfl⟩⟩⟩
  | cons e rest ih =>
    obtain ⟨sig, values, size, blocks⟩ := ih (f.modifyEdge e g)
    refine ⟨sig, values, size.trans (by simp [modifyEdge]), fun b => ?_⟩
    obtain ⟨params, steps, unleft, left⟩ := blocks b
    obtain ⟨params', steps'⟩ := f.modifyEdge_block e g b
    refine ⟨params.trans params', steps.trans steps', fun none => unleft (modifyEdge_unleft none),
      fun l found => ?_⟩
    obtain ⟨m, middle, srcloc, bare⟩ := modifyEdge_left (r := e) (g := g) found
    obtain ⟨n, last, srcloc', bare'⟩ := left m middle
    exact ⟨n, last, srcloc'.trans srcloc, bare'.trans bare⟩

theorem dropParam_params : ((f.dropParam h.block h.edges index param v).block h.block).params =
    (f.block h.block).params.eraseIdxIfInBounds index := by
  let g : Function :=
    { f with values := f.values.modify param fun d => { d with sameAs := some v } }
  obtain ⟨-, -, -, blocks⟩ := foldl_modifyEdge_fields
    (Option.map fun d : Edge => { d with args := d.args.eraseIdxIfInBounds index })
    (g.modifyBlock h.block fun b => { b with params := b.params.eraseIdxIfInBounds index }) h.edges
  rw [dropParam, (blocks h.block).1, block_modifyBlock]
  by_cases exists' : h.block < f.blocks.size
  · simp [g, exists', block]
  · simp [g, exists', block]

/-- What dropping a parameter does to each part of a function. -/
structure Dropped (f : Function) (h : LoopHeader) (index param v : Nat) (f' : Function) : Prop where
  sig : f'.sig = f.sig
  size : f'.values.size = f.values.size
  types : ∀ x : Nat, f'.valueTy x = f.valueTy x
  sameAs : ∀ x : Nat, f'.sameAs x = if x = param then some v else f.sameAs x
  blocks : f'.blocks.size = f.blocks.size
  here : (f'.block h.block).params = (f.block h.block).params.eraseIdxIfInBounds index
  elsewhere : ∀ b, b ≠ h.block → (f'.block b).params = (f.block b).params
  steps : ∀ b, (f'.block b).steps = (f.block b).steps
  unleft : ∀ b, (f.block b).leave = none → (f'.block b).leave = none
  left : ∀ b l, (f.block b).leave = some l → ∃ l', (f'.block b).leave = some l' ∧
    l'.srcloc = l.srcloc ∧ l'.exit.bare = l.exit.bare
  edges : ∀ r, f'.edgeAt? r =
    if r ∈ h.edges then (f.edgeAt? r).map (Option.map fun d =>
      { d with args := d.args.eraseIdxIfInBounds index })
    else f.edgeAt? r

theorem dropParam_dropped (once : h.edges.Nodup) (inside : param < f.values.size) :
    Dropped f h index param v (f.dropParam h.block h.edges index param v) := by
  -- `g` has the alias, `k` also the shorter list of parameters
  let g : Function :=
    { f with values := f.values.modify param fun d => { d with sameAs := some v } }
  let k := g.modifyBlock h.block fun b => { b with params := b.params.eraseIdxIfInBounds index }
  obtain ⟨sig, values, size, blocks⟩ := foldl_modifyEdge_fields
    (Option.map fun d : Edge => { d with args := d.args.eraseIdxIfInBounds index }) k h.edges
  have values : (f.dropParam h.block h.edges index param v).values =
      f.values.modify param fun d => { d with sameAs := some v } := values
  have kBlock : ∀ b, k.block b =
      if h.block = b ∧ b < f.blocks.size then
        { f.block b with params := (f.block b).params.eraseIdxIfInBounds index }
      else f.block b := fun b => block_modifyBlock g h.block b _
  have kLeave : ∀ b, (k.block b).leave = (f.block b).leave := fun b => by
    rw [kBlock]; split <;> rfl
  refine
    { sig := sig, size := ?_, types := fun x => ?_, sameAs := fun x => ?_, blocks := ?_, here := ?_,
      elsewhere := fun b other => ?_, steps := fun b => ?_, unleft := fun b none => ?_,
      left := fun b l found => ?_, edges := fun r => ?_ }
  · rw [values, Array.size_modify]
  · simp only [valueTy, values, Array.getElem?_modify]
    split
    · cases f.values[x]? <;> rfl
    · rfl
  · simp only [Function.sameAs, values, Array.getElem?_modify]
    by_cases same : param = x
    · subst same; simp [inside]
    · simp [same, Ne.symm same]
  · exact size.trans (by simp [k, g])
  · exact dropParam_params
  · rw [dropParam, (blocks b).1, kBlock, if_neg fun both => other both.1.symm]
  · rw [dropParam, (blocks b).2.1, kBlock]
    split <;> rfl
  · exact (blocks b).2.2.1 ((kLeave b).trans none)
  · exact (blocks b).2.2.2 l ((kLeave b).trans found)
  · rw [dropParam, edgeAt?_foldl_modifyEdge _ k once]
    simp [edgeAt?, kLeave]

/-- The parameter at `index` is not needed: it is `v`, and `f'` is what is left without it. -/
structure Spare (f : Function) (h : LoopHeader) (index param v : Nat) (f' : Function) : Prop extends
    Dropped f h index param v f' where
  regular : f.Regular
  looped : f.Looped h
  place : (f.block h.block).params[index]? = some param
  sole : f.soleValue h.edges index param = some v

namespace Spare
variable {f' : Function} (spare : f.Spare h index param v f') {q : Nat}
include spare

theorem mem : param ∈ (f.block h.block).params := Array.mem_of_getElem? spare.place

theorem passesIn : ∃ a, f.PassesIn h param a ∧ v = f.resolve a ∧
    ∀ q : Nat, q ∈ (f.block h.block).params → v < q := by
  obtain ⟨a, enters, is, older⟩ := spare.looped.passesIn spare.regular.descending spare.place
  rw [← soleValue_eq_some spare.sole mem_cons_self (Nat.ne_of_lt (older param spare.mem))]
  exact ⟨a, enters, is, older⟩

theorem older (mem : q ∈ (f.block h.block).params) : v < q :=
  let ⟨_, _, _, older⟩ := spare.passesIn
  older q mem

/-- Edges lead where they led; those into the header pass one value less. -/
theorem edge? (r : EdgeRef) : f'.edge? r = (f.edge? r).map fun e =>
    { e with args := if e.block = h.block then e.args.eraseIdxIfInBounds index else e.args } := by
  rw [edge?_eq_join, spare.edges]
  split
  · next mem =>
    obtain ⟨args, edge, -⟩ := spare.looped.passes r mem
    simp [edgeAt?_of_edge? edge, edge]
  · next out =>
    rw [← edge?_eq_join]
    cases found : f.edge? r with
    | none => rfl
    | some e =>
      simp [show e.block ≠ h.block from fun same => out (spare.looped.only r e found same)]

/-- All parameters but the one are left. -/
theorem mem_params {b : Nat} : q ∈ (f'.block b).params ↔ q ∈ (f.block b).params ∧ q ≠ param := by
  by_cases same : b = h.block
  · subst same
    rw [spare.here, mem_eraseIdxIfInBounds]
    refine ⟨fun ⟨j, other, at'⟩ => ⟨Array.mem_of_getElem? at', ?_⟩, fun ⟨mem, other⟩ => ?_⟩
    · rintro rfl
      have inside : j < (f.block h.block).params.toList.length :=
        (Array.getElem?_eq_some_iff.1 at').1
      refine other ((getElem?_inj inside (spare.regular.param_once h.block)).1 ?_)
      rw [Array.getElem?_toList, Array.getElem?_toList, spare.place, at']
    · obtain ⟨j, at'⟩ := Array.mem_iff_getElem?.1 mem
      refine ⟨j, ?_, at'⟩
      rintro rfl
      exact other (Option.some.inj (at'.symm.trans spare.place))
  · rw [spare.elsewhere b same]
    refine ⟨fun mem => ⟨mem, ?_⟩, And.left⟩
    rintro rfl
    exact same (spare.regular.param_apart b h.block q mem spare.mem)

theorem aliases {x w : Nat} (same : f.sameAs x = some w) : f'.sameAs x = some w := by
  rw [spare.sameAs, if_neg]
  · exact same
  · rintro rfl
    rw [spare.regular.param_own h.block x spare.mem] at same
    cases same

theorem leads (r : EdgeRef) (e : Edge) (found : f'.edge? r = some e) :
    ∃ args, f.edge? r = some ⟨e.block, args⟩ := by
  rw [spare.edge?] at found
  obtain ⟨e, before, rfl⟩ := map_eq_some_iff.1 found
  exact ⟨e.args, before⟩

theorem keeps_regular : f'.Regular where
  entry := by rw [spare.blocks]; exact spare.regular.entry
  descending x w same := by
    rw [spare.sameAs] at same
    split at same
    · next is => cases same; exact is ▸ spare.older spare.mem
    · exact spare.regular.descending x w same
  param_lt b q mem := by
    rw [spare.size]
    exact spare.regular.param_lt b q (spare.mem_params.1 mem).1
  param_own b q mem := by
    obtain ⟨old, ne⟩ := spare.mem_params.1 mem
    rw [spare.sameAs, if_neg ne]
    exact spare.regular.param_own b q old
  param_once b := by
    by_cases same : b = h.block
    · subst same
      rw [spare.here, Array.toList_eraseIdxIfInBounds]
      exact (spare.regular.param_once _).sublist (eraseIdx_sublist _ _)
    · rw [spare.elsewhere b same]
      exact spare.regular.param_once b
  param_apart b c q one two :=
    spare.regular.param_apart b c q (spare.mem_params.1 one).1 (spare.mem_params.1 two).1
  target_lt r e found := by
    obtain ⟨args, before⟩ := spare.leads r e found
    rw [spare.blocks]
    exact spare.regular.target_lt r ⟨_, args⟩ before

theorem before (edge : f'.edge? r = some ⟨h.block, args⟩) :
    ∃ args', f.edge? r = some ⟨h.block, args'⟩ ∧ args = args'.eraseIdxIfInBounds index := by
  rw [spare.edge?] at edge
  obtain ⟨⟨b, args'⟩, before, same⟩ := map_eq_some_iff.1 edge
  obtain ⟨rfl, rfl⟩ := by simpa using same
  exact ⟨args', before, if_pos rfl⟩

/-- What is passed for a parameter that is left was passed for it before. -/
theorem passed (edge : f'.edge? r = some ⟨h.block, args⟩) {p a : Nat}
    (at' : (f'.block h.block).params[i]? = some p)
    (is : args[i]? = some a) :
    ∃ (j : Nat) (args' : Array Value), f.edge? r = some ⟨h.block, args'⟩ ∧
      (f.block h.block).params[j]? = some p ∧
      args'[j]? = some a := by
  obtain ⟨args', before, rfl⟩ := spare.before edge
  rw [spare.here, getElem?_eraseIdxIfInBounds] at at'
  rw [getElem?_eraseIdxIfInBounds] at is
  split at at' <;> rename_i side <;> simp only [side, if_true, if_false] at is <;>
    exact ⟨_, args', before, at', is⟩

theorem keeps_looped : f'.Looped h := by
  refine ⟨spare.looped.ne_entry, fun r mem => ?_, fun r e found same => ?_, spare.looped.once,
    fun args edge a p mem left => ?_⟩
  · obtain ⟨args, edge, size⟩ := spare.looped.passes r mem
    refine ⟨args.eraseIdxIfInBounds index, by simp [spare.edge?, edge], ?_⟩
    rw [spare.here, size_eraseIdxIfInBounds, size_eraseIdxIfInBounds, size]
  · obtain ⟨args, before⟩ := spare.leads r e found
    exact spare.looped.only r _ before same
  · obtain ⟨args', before, rfl⟩ := spare.before edge
    rw [mem_eraseIdxIfInBounds] at mem
    obtain ⟨j, -, is⟩ := mem
    exact spare.looped.entered args' before a p (Array.mem_of_getElem? is)
      (spare.mem_params.1 left).1

/-- What an edge into the header passes is carried over. -/
theorem carries (edge : f.edge? r = some ⟨h.block, args⟩) :
    Carries f f' h.block args (args.eraseIdxIfInBounds index) := by
  have down := spare.keeps_regular.descending
  have alias' : f'.resolve param = f'.resolve v :=
    resolve_of_sameAs down (by rw [spare.sameAs, if_pos rfl])
  have mem := spare.looped.only r _ edge rfl
  refine ⟨fun q mem => (spare.mem_params.1 mem).1, fun size => ?_, fun k p a at' passed => ?_⟩
  · rw [spare.here, size_eraseIdxIfInBounds, size_eraseIdxIfInBounds, size]
  · rcases Nat.lt_trichotomy k index with lt | rfl | gt
    · exact .inl ⟨k, by rw [spare.here, getElem?_eraseIdxIfInBounds, if_pos lt]; exact at',
        by rw [getElem?_eraseIdxIfInBounds, if_pos lt]; exact passed⟩
    · -- the parameter: every edge passes `v` or the parameter itself
      rw [spare.place] at at'
      cases at'
      have same : f'.resolve param = f'.resolve a := by
        rw [← resolve_of_aliases spare.regular.descending down (fun _ _ => spare.aliases) a,
          ← incoming_eq edge passed]
        by_cases itself : f.incoming k r = param
        · rw [itself]
        · rw [soleValue_eq_some spare.sole mem itself, alias']
      refine .inr ⟨same, fun q left => ?_⟩
      rw [alias']
      exact Nat.lt_of_le_of_lt (resolve_le down v) (spare.older (spare.mem_params.1 left).1)
    · refine .inl ⟨k - 1, ?_, ?_⟩
      · rw [spare.here, getElem?_eraseIdxIfInBounds, if_neg (by omega),
          Nat.sub_add_cancel (by omega)]
        exact at'
      · rw [getElem?_eraseIdxIfInBounds, if_neg (by omega), Nat.sub_add_cancel (by omega)]
        exact passed

theorem grows : Grows f f' where
  sig := spare.sig
  values := Nat.le_of_eq spare.size.symm
  types x _ := spare.types x
  aliases _ _ := spare.aliases
  kept x _ own apart := by
    refine ⟨?_, fun b other mem => apart b other (spare.mem_params.1 mem).1⟩
    rw [spare.sameAs, if_neg]
    · exact own
    · rintro rfl
      exact apart h.block spare.looped.ne_entry spare.mem
  blocks := Nat.le_of_eq spare.blocks.symm
  steps b := spare.steps b ▸ prefix_rfl
  left b l found := by
    obtain ⟨l', found', srcloc, bare⟩ := spare.left b l found
    refine ⟨spare.steps b, l', found', srcloc, bare, fun i d edge => ?_⟩
    have before : f.edgeAt? ⟨b, i⟩ = some d := by simp [edgeAt?, found, edge]
    have after : l'.exit.edges[i]? = f'.edgeAt? ⟨b, i⟩ := by simp [edgeAt?, found']
    rw [after, spare.edges, before]
    cases d with
    | none => split <;> exact ⟨none, rfl, trivial⟩
    | some e =>
      have edge' : f.edge? ⟨b, i⟩ = some e := by simp [edge?_eq_join, before]
      split
      · next mem =>
        obtain ⟨args, into, -⟩ := spare.looped.passes _ mem
        rw [edge'] at into
        cases into
        exact ⟨_, rfl, _, rfl, spare.carries edge'⟩
      · next mem =>
        have other : e.block ≠ h.block := fun same => mem (spare.looped.only _ e edge' same)
        have params := spare.elsewhere e.block other
        refine ⟨some e, rfl, e.args, rfl, ?_⟩
        exact
          { subset := fun q mem => params ▸ mem
            size := fun same => by rw [params]; exact same
            each := fun j p a at' passed => .inl ⟨j, by rw [params]; exact at', passed⟩ }

/-- Where types are kept, they still are. -/
theorem keeps_sound (sound : f.Sound) (suits : f.Suits h) : f'.Sound ∧ f'.Suits h := by
  refine ⟨{ spare.keeps_regular with alias_ty := fun x w same => ?_ },
    fun r mem args edge i a p passed at' => ?_⟩
  · rw [spare.types, spare.types]
    rw [spare.sameAs] at same
    split at same
    · next is =>
      cases same
      obtain ⟨a, ⟨i, args, edge, at', passed⟩, rfl, -⟩ := spare.passesIn
      rw [is, sound.resolve_ty]
      exact suits h.entry mem_cons_self args edge i a param passed at'
    · exact sound.alias_ty x w same
  · rw [spare.types, spare.types]
    obtain ⟨j, args', before, at', passed⟩ := spare.passed edge at' passed
    exact suits r mem args' before j a p passed at'

end Spare

/-! ### Whole passes -/

/-- Parameters of the header were dropped, one after another, none of which was needed. -/
inductive Prunes (h : LoopHeader) (f : Function) : Function → Prop
  | refl : Prunes h f f
  | drop {g : Function} {index param v : Nat} :
      Prunes h f g → (g.block h.block).params[index]? = some param →
      g.soleValue h.edges index param = some v →
        Prunes h f (g.dropParam h.block h.edges index param v)

namespace Prunes
variable {g : Function}

/-- One pass. Parameters are looked at from the last to the first, so those still to come stay where
they are. -/
theorem pass (prunes : Prunes h f g) (todo : List (Nat × Value))
    (down : todo.Pairwise fun x y => y.1 < x.1)
    (there : ∀ x ∈ todo, (g.block h.block).params[x.1]? = some x.2) :
    let g' := todo.foldl (fun g (index, param) =>
      match g.soleValue h.edges index param with
      | some v => g.dropParam h.block h.edges index param v
      | none => g) g
    Prunes h f g' ∧ ((g'.block h.block).params.size < (g.block h.block).params.size ∨
      g' = g ∧ ∀ x ∈ todo, g.soleValue h.edges x.1 x.2 = none) := by
  induction todo generalizing g with
  | nil => exact ⟨prunes, .inr ⟨rfl, by simp⟩⟩
  | cons x rest ih =>
    rw [pairwise_cons] at down
    have here := there x mem_cons_self
    cases sole : g.soleValue h.edges x.1 x.2 with
    | none =>
      simp only [foldl_cons, sole, forall_mem_cons, true_and]
      exact ih prunes down.2 fun y mem => there y (mem_cons_of_mem x mem)
    | some v =>
      simp only [foldl_cons, sole]
      obtain ⟨prunes, shrinks⟩ := ih (prunes.drop here sole) down.2 fun y mem => by
        rw [dropParam_params, getElem?_eraseIdxIfInBounds, if_pos (down.1 y mem)]
        exact there y (mem_cons_of_mem x mem)
      refine ⟨prunes, .inl ?_⟩
      have inside := (Array.getElem?_eq_some_iff.1 here).1
      have less : ((g.dropParam h.block h.edges x.1 x.2 v).block h.block).params.size <
          (g.block h.block).params.size := by
        rw [dropParam_params, size_eraseIdxIfInBounds, if_pos inside]
        omega
      rcases shrinks with lt | ⟨same, -⟩
      · exact Nat.lt_trans lt less
      · rw [same]; exact less

/-- A pass that drops no parameter finds none that could be. -/
theorem round (prunes : Prunes h f g) : Prunes h f (g.pruneRound h.block h.edges) ∧
    (((g.pruneRound h.block h.edges).block h.block).params.size < (g.block h.block).params.size ∨
      g.pruneRound h.block h.edges = g ∧
        ∀ i p : Nat, (g.block h.block).params[i]? = some p → g.soleValue h.edges i p = none) := by
  obtain ⟨prunes, shrinks⟩ :=
    prunes.pass ((g.block h.block).params.toList.mapIdx fun i p => (i, p)).reverse (by
      rw [pairwise_reverse, pairwise_iff_getElem]
      intro i j hi hj lt
      simpa using lt) fun x mem => by
    rw [mem_reverse, mem_iff_getElem?] at mem
    obtain ⟨i, at'⟩ := mem
    simp only [getElem?_mapIdx, map_eq_some_iff] at at'
    obtain ⟨p, here, rfl⟩ := at'
    simpa using here
  refine ⟨prunes, shrinks.imp_right fun ⟨same, all⟩ => ⟨same, fun i p at' => all (i, p) ?_⟩⟩
  rw [mem_reverse, mem_iff_getElem?]
  exact ⟨i, by simp [getElem?_mapIdx, at']⟩

theorem rounds (prunes : Prunes h f g) (n : Nat) :
    Prunes h f (pruneRounds h.block h.edges n g) := by
  induction n generalizing g with
  | zero => exact prunes
  | succ n ih =>
    rw [pruneRounds]
    split
    · exact prunes.round.1
    · exact ih prunes.round.1

end Prunes

theorem pruneLoop_prunes (f : Function) (h : LoopHeader) :
    Prunes h f (f.pruneLoop h.block h.edges) :=
  Prunes.rounds .refl _

/-- With more rounds than parameters the last one drops nothing, and as many as one likes come to
the same. -/
theorem pruneRounds_settled (n : Nat) (enough : (f.block h.block).params.size < n) :
    let g := pruneRounds h.block h.edges n f
    (g.pruneRound h.block h.edges = g ∧
      ∀ i p : Nat, (g.block h.block).params[i]? = some p → g.soleValue h.edges i p = none) ∧
    ∀ m, (f.block h.block).params.size < m → pruneRounds h.block h.edges m f = g := by
  induction n generalizing f with
  | zero => omega
  | succ n ih =>
    have shrinks := (Prunes.refl (h := h) (f := f)).round.2
    simp only [pruneRounds]
    split
    · next same =>
      obtain ⟨fixed, none⟩ := shrinks.resolve_left (by omega)
      refine ⟨by rw [fixed]; exact ⟨fixed, none⟩, fun m more => ?_⟩
      obtain ⟨m, rfl⟩ : ∃ k, m = k + 1 := ⟨m - 1, by omega⟩
      rw [pruneRounds, if_pos same]
    · next other =>
      have less := shrinks.resolve_right fun ⟨same, _⟩ => other (by rw [same])
      obtain ⟨settled, any⟩ := ih (f := f.pruneRound h.block h.edges) (by omega)
      refine ⟨settled, fun m more => ?_⟩
      obtain ⟨m, rfl⟩ : ∃ k, m = k + 1 := ⟨m - 1, by omega⟩
      rw [pruneRounds, if_neg other, any m (by omega)]

/-- What each drop keeps is kept throughout. -/
@[elab_as_elim] theorem Prunes.keeps {g : Function} {motive : Function → Prop}
    (prunes : Prunes h f g) (regular : f.Regular)
    (looped : f.Looped h) (refl : motive f)
    (drop : ∀ {g g' : Function} {index param v : Nat},
      g.Spare h index param v g' → motive g → motive g') : motive g := by
  suffices g.Regular ∧ g.Looped h ∧ motive g from this.2.2
  induction prunes with
  | refl => exact ⟨regular, looped, refl⟩
  | drop prunes here sole ih =>
    obtain ⟨regular, looped, kept⟩ := ih
    have inside := regular.param_lt h.block _ (Array.mem_of_getElem? here)
    have spare : Spare _ h _ _ _ _ := ⟨dropParam_dropped looped.once inside, regular,
      looped, here, sole⟩
    exact ⟨spare.keeps_regular, spare.keeps_looped, drop spare kept⟩

/-- What pruning keeps. -/
structure Pruned (f : Function) (h : LoopHeader) (g : Function) : Prop where
  sound : g.Sound
  looped : g.Looped h
  suits : g.Suits h
  grows : Grows f g
  values : g.values.size = f.values.size
  blocks : g.blocks.size = f.blocks.size
  elsewhere : ∀ b, b ≠ h.block → (g.block b).params = (f.block b).params
  steps : ∀ b, (g.block b).steps = (f.block b).steps
  unleft : ∀ b, (f.block b).leave = none → (g.block b).leave = none
  edges : ∀ r, r ∉ h.edges → g.edgeAt? r = f.edgeAt? r

/-- Pruning a loop keeps the meaning of all that is there. -/
theorem pruneLoop_pruned (sound : f.Sound) (looped : f.Looped h) (suits : f.Suits h) :
    Pruned f h (f.pruneLoop h.block h.edges) := by
  refine (pruneLoop_prunes f h).keeps sound.toRegular looped ?_ fun spare pruned => ?_
  · exact ⟨sound, looped, suits, .refl f, rfl, rfl, fun _ _ => rfl, fun _ => rfl, fun _ => id,
      fun _ _ => rfl⟩
  · obtain ⟨sound, suits⟩ := spare.keeps_sound pruned.sound pruned.suits
    exact
      { sound := sound
        looped := spare.keeps_looped
        suits := suits
        grows := pruned.grows.trans pruned.sound sound spare.grows
        values := spare.size.trans pruned.values
        blocks := spare.blocks.trans pruned.blocks
        elsewhere := fun b other => (spare.elsewhere b other).trans (pruned.elsewhere b other)
        steps := fun b => (spare.steps b).trans (pruned.steps b)
        unleft := fun b none => spare.unleft b (pruned.unleft b none)
        edges := fun r apart => by rw [spare.edges, if_neg apart, pruned.edges r apart] }

end
end Function
end Wasmill.Ssa

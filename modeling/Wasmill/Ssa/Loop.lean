import Wasmill.Ssa.Function

/-! Loop parameters that are not needed.

A loop header starts with a parameter for every local. A parameter for which all edges pass one and
the same value, or the parameter itself, is that value: it becomes an alias, and goes. -/
namespace Wasmill.Ssa.Function

/-- The argument for parameter `index` on an edge. -/
def incoming (f : Function) (index : Nat) (e : EdgeRef) : Value :=
  f.resolve (((f.edge? e).bind (·.args[index]?)).getD 0)

/-- The one value other than `param` that the edges pass for it. -/
def soleValue (f : Function) (edges : List EdgeRef) (index : Nat) (param : Value) : Option Value :=
  match (edges.map (f.incoming index)).filter (· ≠ param) with
  | v :: rest => if rest.all (· = v) then some v else none
  | [] => none

/-- Makes `param`, the parameter of that index, an alias of `v`. -/
def dropParam (f : Function) (header : Nat) (edges : List EdgeRef) (index : Nat)
    (param v : Value) : Function :=
  let f := { f with values := f.values.modify param fun d => { d with sameAs := some v } }
  let f := f.modifyBlock header fun b => { b with params := b.params.eraseIdxIfInBounds index }
  edges.foldl (fun f e => f.modifyEdge e fun dest =>
    dest.map fun d => { d with args := d.args.eraseIdxIfInBounds index }) f

/-- One pass over the parameters, the last first. -/
def pruneRound (f : Function) (header : Nat) (edges : List EdgeRef) : Function :=
  let params := (f.block header).params
  (params.toList.mapIdx fun i p => (i, p)).reverse.foldl (fun f (index, param) =>
    match f.soleValue edges index param with
    | some v => f.dropParam header edges index param v
    | none => f) f

/-- Passes until one changes nothing, at most as many as asked for. -/
def pruneRounds (header : Nat) (edges : List EdgeRef) : Nat → Function → Function
  | 0, f => f
  | n + 1, f =>
    let g := f.pruneRound header edges
    if (g.block header).params.size = (f.block header).params.size then g
    else pruneRounds header edges n g

/-- Drops the parameters of a loop header that are not needed. Each pass but the last drops one. -/
def pruneLoop (f : Function) (header : Nat) (edges : List EdgeRef) : Function :=
  pruneRounds header edges ((f.block header).params.size + 1) f

end Wasmill.Ssa.Function

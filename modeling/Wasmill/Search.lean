/-! Binary search in arrays.

The search halves a window and never leaves early, so what it finds in an array that is not sorted
is still determined: `settle` names the element it ends on. -/
namespace Wasmill.Search

/-- The index a search ends on when `order` tells how each element compares with what is sought. -/
def settle (order : Nat → Ordering) (base size : Nat) : Nat :=
  if 1 < size then
    let half := size / 2
    settle order (if order (base + half) == .gt then base else base + half) (size - half)
  else base
termination_by size
decreasing_by omega

/-- The number of leading elements that satisfy `p`, in an array where those come first. -/
def partitionPoint (p : α → Bool) (xs : Array α) : Nat :=
  if xs.size = 0 then 0
  else
    let order (i : Nat) : Ordering := if xs[i]?.any p then .lt else .gt
    let i := settle order 0 xs.size
    if order i == .lt then i + 1 else i

/-- The element whose key is `k`, in an array sorted by keys. -/
def findKey? (key : α → Nat) (k : Nat) (xs : Array α) : Option α :=
  let order (i : Nat) : Ordering :=
    match xs[i]? with
    | some x => compare (key x) k
    | none => .gt
  match xs[settle order 0 xs.size]? with
  | some x => if key x = k then some x else none
  | none => none

end Wasmill.Search

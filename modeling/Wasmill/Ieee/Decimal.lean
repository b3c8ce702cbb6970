import Wasmill.Ieee.Format

/-! Decimal text of floating-point patterns.

The digits are the fewest that read back as the same pattern and, among those, the nearest to it; a
tie goes up. They are written positionally, without an exponent, however long that gets. -/
namespace Wasmill.Ieee

/-- The reals that round to a pattern, as `low .. high` around `value` over a common divisor; the
ends belong to it when `closed`. -/
structure Interval where
  low : Nat
  value : Nat
  high : Nat
  divisor : Nat
  closed : Bool

namespace Interval

def has (i : Interval) (n : Nat) : Bool :=
  if i.closed then i.low ≤ n && n ≤ i.high else i.low < n && n < i.high

/-- The interval and the grid step for multiples of `10 ^ k`. -/
def onGrid (i : Interval) (k : Int) : Interval × Nat :=
  if 0 ≤ k then (i, i.divisor * Nat.pow 10 k.toNat)
  else
    let up := Nat.pow 10 (-k).toNat
    ({ i with low := i.low * up, value := i.value * up, high := i.high * up }, i.divisor)

/-- The multiple of `10 ^ k` in the interval that is nearest to its value, if there is one. -/
def hit? (i : Interval) (k : Int) : Option Nat :=
  let (j, step) := i.onGrid k
  let below := j.value / step
  let above := below + 1
  match j.has (below * step), j.has (above * step) with
  | true, true => some (if j.value - below * step < above * step - j.value then below else above)
  | true, false => some below
  | false, true => some above
  | false, false => none

/-- The coarsest grid with a hit, from `10 ^ k` downward. -/
def search (i : Interval) : Nat → Int → Nat × Int
  | 0, k => (i.value / i.divisor, k)
  | fuel + 1, k =>
    match i.hit? k with
    | some n => (n, k)
    | none => search i fuel (k - 1)

end Interval

/-- `n * 10 ^ k` written out. -/
def positional (n : Nat) (k : Int) : String :=
  let digits := toString n
  if 0 ≤ k then digits ++ "".pushn '0' k.toNat
  else
    let places := (-k).toNat
    let padded := "".pushn '0' (places + 1 - digits.length) ++ digits
    let point := padded.length - places
    String.ofList (padded.toList.take point) ++ "." ++ String.ofList (padded.toList.drop point)

namespace Format
variable (F : Format)

/-- The interval of a positive value `m * 2 ^ q`. Below a power of two the patterns lie twice as
close as above it. -/
def interval (m : Nat) (q : Int) : Interval :=
  let gap := if m = 1 <<< F.frac && F.least < q then 1 else 2
  let up := 1 <<< (q - 2).toNat
  { low := (4 * m - gap) * up, value := 4 * m * up, high := (4 * m + 2) * up,
    divisor := 1 <<< (2 - q).toNat, closed := m % 2 = 0 }

/-- The shortest digits of a positive value, with their exponent of ten. -/
def shortest (m : Nat) (q : Int) : Nat × Int :=
  let above := (m.log2 + q + 1) * 30103 / 100000 + 1
  (F.interval m q).search 24 above

def text (bits : Nat) : String :=
  match F.decode bits with
  | .nan => "NaN"
  | .infinite negative => if negative then "-inf" else "inf"
  | .finite negative m q =>
    let magnitude :=
      if m = 0 then "0"
      else
        let (n, k) := F.shortest m q
        positional n k
    if negative then "-" ++ magnitude else magnitude

end Format
end Wasmill.Ieee

import Wasmill.Ieee.Format

/-! Arithmetic on floating-point patterns.

Every operation computes its exact result, or one bit more than enough of it, in integers and rounds
once. Quotients and roots carry a sticky bit: a lowest bit set when the exact result goes on below
it. -/
namespace Wasmill.Ieee

/-- The whole part of the square root. -/
def floorSqrt (n : Nat) : Nat :=
  (List.range (n.log2 / 2 + 1)).foldr
    (fun k r => if (r + (1 <<< k)) * (r + (1 <<< k)) ≤ n then r + (1 <<< k) else r) 0

/-- `n` with one more bit below it, set when something was left over. -/
def sticky (n : Nat) (rest : Bool) : Nat := 2 * n + rest.toNat

/-- How a value is taken to a whole number. -/
inductive Direction
  | up
  | down
  | zero
  | nearest

namespace Format
variable (F : Format)

def neg (a : Nat) : Nat :=
  if F.negative a then F.magnitude a else F.signBit + F.magnitude a

def abs (a : Nat) : Nat := F.magnitude a

def copysign (a b : Nat) : Nat := F.withSign (F.negative b) (F.magnitude a)

def add (a b : Nat) : Nat :=
  match F.decode a, F.decode b with
  | .nan, _ | _, .nan => F.quietNan
  | .infinite s, .infinite t => if s = t then F.withSign s F.infinity else F.quietNan
  | .infinite s, .finite .. => F.withSign s F.infinity
  | .finite .., .infinite t => F.withSign t F.infinity
  | .finite s m q, .finite t n r =>
    let low := min q r
    let signed (negative : Bool) (x : Nat) : Int := if negative then -x else x
    let sum := signed s (m <<< (q - low).toNat) + signed t (n <<< (r - low).toNat)
    if sum = 0 then F.withSign (s && t) 0 else F.round (sum < 0) sum.natAbs low

def sub (a b : Nat) : Nat := F.add a (F.neg b)

def mul (a b : Nat) : Nat :=
  match F.decode a, F.decode b with
  | .nan, _ | _, .nan => F.quietNan
  | .infinite s, .infinite t => F.withSign (s != t) F.infinity
  | .infinite s, .finite t n _ | .finite t n _, .infinite s =>
    if n = 0 then F.quietNan else F.withSign (s != t) F.infinity
  | .finite s m q, .finite t n r => F.round (s != t) (m * n) (q + r)

def div (a b : Nat) : Nat :=
  match F.decode a, F.decode b with
  | .nan, _ | _, .nan => F.quietNan
  | .infinite _, .infinite _ => F.quietNan
  | .infinite s, .finite t _ _ => F.withSign (s != t) F.infinity
  | .finite s _ _, .infinite t => F.withSign (s != t) 0
  | .finite s m q, .finite t n r =>
    if n = 0 then
      if m = 0 then F.quietNan else F.withSign (s != t) F.infinity
    else
      let extra := F.frac + 3 + n.log2
      let scaled := m <<< extra
      F.round (s != t) (sticky (scaled / n) (scaled % n != 0)) (q - r - extra - 1)

def sqrt (a : Nat) : Nat :=
  match F.decode a with
  | .nan => F.quietNan
  | .infinite true => F.quietNan
  | .infinite false => F.infinity
  | .finite s m q =>
    if m = 0 then F.withSign s 0
    else if s then F.quietNan
    else
      let odd := (q % 2).toNat
      let scaled := m <<< (odd + 2 * (F.frac + 3))
      let root := floorSqrt scaled
      F.round false (sticky root (root * root != scaled)) ((q - odd) / 2 - (F.frac + 3) - 1)

/-! ### Order -/

/-- The place of a pattern on the number line; the two zeros share one. -/
def place (a : Nat) : Int := if F.negative a then -(F.magnitude a : Int) else F.magnitude a

/-- How two patterns compare; a NaN compares with nothing. -/
def compare? (a b : Nat) : Option Ordering :=
  if F.isNan a || F.isNan b then none else some (compare (F.place a) (F.place b))

def eq (a b : Nat) : Bool := F.compare? a b == some .eq

def lt (a b : Nat) : Bool := F.compare? a b == some .lt

def le (a b : Nat) : Bool := F.lt a b || F.eq a b

/-- The lesser of the two, NaN if either is one; the negative zero is the lesser zero. -/
def minimum (a b : Nat) : Nat :=
  match F.compare? a b with
  | none => F.quietNan
  | some .lt => a
  | some .gt => b
  | some .eq => a ||| b

/-- The greater of the two, NaN if either is one; the positive zero is the greater zero. -/
def maximum (a b : Nat) : Nat :=
  match F.compare? a b with
  | none => F.quietNan
  | some .lt => b
  | some .gt => a
  | some .eq => a &&& b

/-! ### Whole numbers -/

/-- The whole number next to `m / 2 ^ s` in a direction, for a magnitude of the given sign. -/
def wholePart (d : Direction) (negative : Bool) (m s : Nat) : Nat :=
  match d with
  | .zero => m >>> s
  | .nearest => shiftEven m s
  | .up => if negative || m % (1 <<< s) = 0 then m >>> s else (m >>> s) + 1
  | .down => if !negative || m % (1 <<< s) = 0 then m >>> s else (m >>> s) + 1

/-- Rounds to a whole number, keeping the sign of a zero result. -/
def roundWhole (d : Direction) (a : Nat) : Nat :=
  match F.decode a with
  | .nan => a
  | .infinite _ => a
  | .finite s m q => if 0 ≤ q then a else F.round s (wholePart d s m (-q).toNat) 0

/-- The value without its fraction, if it is a number at all. -/
def truncate (a : Nat) : Option Int :=
  match F.decode a with
  | .finite s m q =>
    let whole := if 0 ≤ q then m <<< q.toNat else m >>> (-q).toNat
    some (if s then -(whole : Int) else whole)
  | _ => none

/-- Truncation clamped to `lo ..= hi`; a NaN gives zero. -/
def saturate (lo hi : Int) (a : Nat) : Int :=
  match F.truncate a with
  | some n => max lo (min hi n)
  | none => if F.isNan a then 0 else if F.negative a then lo else hi

end Format
end Wasmill.Ieee

/-! Binary floating-point formats, read and written exactly.

A bit pattern denotes a `Datum`: a NaN, an infinity, or `m * 2 ^ q` with a sign. The way back is
`Format.round`, which takes any magnitude `m * 2 ^ q` to the nearest pattern, ties to even,
subnormal and overflowing results included. NaN payloads are not kept: there is one quiet NaN per
format. -/
namespace Wasmill.Ieee

/-- A binary format: `frac` fraction bits below `expo` exponent bits below the sign. -/
structure Format where
  frac : Nat
  expo : Nat

def single : Format := ⟨23, 8⟩

def double : Format := ⟨52, 11⟩

/-- What a pattern denotes. -/
inductive Datum
  | nan
  | infinite (negative : Bool)
  | finite (negative : Bool) (m : Nat) (q : Int)

/-- The quotient `m / 2 ^ s`, rounded to nearest with ties to even. -/
def shiftEven (m s : Nat) : Nat :=
  let whole := m >>> s
  let twice := 2 * (m % (1 <<< s))
  if twice < 1 <<< s then whole
  else if 1 <<< s < twice then whole + 1
  else whole + whole % 2

namespace Format
variable (F : Format)

def width : Nat := 1 + F.expo + F.frac

def bias : Nat := (1 <<< (F.expo - 1)) - 1

/-- The exponent field of infinities and NaNs. -/
def top : Nat := (1 <<< F.expo) - 1

/-- The exponent of the least positive value. -/
def least : Int := 1 - F.bias - F.frac

def signBit : Nat := 1 <<< (F.expo + F.frac)

def quietNan : Nat := (F.top <<< F.frac) + (1 <<< (F.frac - 1))

def infinity : Nat := F.top <<< F.frac

def withSign (negative : Bool) (magnitude : Nat) : Nat :=
  if negative then F.signBit + magnitude else magnitude

/-- The pattern without its sign. -/
def magnitude (bits : Nat) : Nat := bits % F.signBit

def negative (bits : Nat) : Bool := F.signBit ≤ bits % (1 <<< F.width)

def isNan (bits : Nat) : Bool := F.infinity < F.magnitude bits

def isInfinite (bits : Nat) : Bool := F.magnitude bits == F.infinity

def decode (bits : Nat) : Datum :=
  let magnitude := F.magnitude bits
  let field := magnitude >>> F.frac
  let fraction := magnitude % (1 <<< F.frac)
  if F.isNan bits then .nan
  else if F.isInfinite bits then .infinite (F.negative bits)
  else if field = 0 then .finite (F.negative bits) fraction F.least
  else .finite (F.negative bits) ((1 <<< F.frac) + fraction) (F.least + field - 1)

/-- The pattern nearest to `m * 2 ^ q`. The quantum is that of the result, so a carry out of the
significand lands in the exponent field by plain addition. -/
def round (negative : Bool) (m : Nat) (q : Int) : Nat :=
  if m = 0 then F.withSign negative 0
  else
    let quantum := max (q + m.log2 - F.frac) F.least
    let significand :=
      if quantum ≤ q then m <<< (q - quantum).toNat else shiftEven m (quantum - q).toNat
    let magnitude := ((quantum - F.least).toNat <<< F.frac) + significand
    F.withSign negative (min magnitude F.infinity)

def encode : Datum → Nat
  | .nan => F.quietNan
  | .infinite negative => F.withSign negative F.infinity
  | .finite negative m q => F.round negative m q

def ofInt (n : Int) : Nat := F.round (n < 0) n.natAbs 0

/-- The same number in another format. -/
def convert (G : Format) (bits : Nat) : Nat := G.encode (F.decode bits)

end Format
end Wasmill.Ieee

/-! Hexadecimal text. -/
namespace Wasmill

/-- The digits of a number, lower case, without leading zeros. -/
def hexDigits (n : Nat) : String := String.ofList (Nat.toDigits 16 n)

/-- A number with its base mark. -/
def hex (n : Nat) : String := "0x" ++ hexDigits n

/-- The digits of a number, padded with zeros to at least `width`. -/
def hexPadded (width n : Nat) : String :=
  let digits := hexDigits n
  "".pushn '0' (width - digits.length) ++ digits

end Wasmill

import Wasmill.Code.Instr

/-! Writing values as bytes and reading them back.

A `Codec` is a writer and a reader for one type; the reader takes a value off the front and leaves
what follows it. Small numbers take one byte, larger ones a mark and as many bytes as the mark says.
The reader takes any mark, the writer the shortest. -/
namespace Wasmill.Image

structure Codec (α : Type) where
  write : α → List UInt8
  read : List UInt8 → Option (α × List UInt8)

namespace Codec

/-- A value and nothing after it. -/
def decode (c : Codec α) (bytes : List UInt8) : Option α :=
  match c.read bytes with
  | some (a, []) => some a
  | _ => none

/-- Bytes taken off the front. -/
def take (n : Nat) (bytes : List UInt8) : Option (List UInt8 × List UInt8) :=
  if n ≤ bytes.length then some (bytes.splitAt n) else none

/-- The number whose low byte comes first. -/
def fromLe (bytes : List UInt8) : Nat := bytes.foldr (fun b n => b.toNat + 256 * n) 0

/-- Numbers in 2, 4, 8 and 16 bytes are marked by `251` to `254`. -/
def writeNat (n : Nat) : List UInt8 :=
  if n < 251 then [UInt8.ofNat n]
  else if n < UInt16.size then 251 :: Code.le 2 n
  else if n < UInt32.size then 252 :: Code.le 4 n
  else if n < UInt64.size then 253 :: Code.le 8 n
  else 254 :: Code.le 16 n

/-- A number with its mark, in at most `widest` bytes. -/
def readNat (widest : Nat) : List UInt8 → Option (Nat × List UInt8)
  | [] => none
  | b :: rest =>
    if b < 251 then some (b.toNat, rest)
    else
      let width := 1 <<< (b.toNat - 250)
      if widest < width then none
      else (take width rest).map fun (digits, rest) => (fromLe digits, rest)

/-- Numbers below a bound. -/
def natBelow (bound widest : Nat) : Codec Nat where
  write := writeNat
  read bytes := (readNat widest bytes).filter (·.1 < bound)

def u32 : Codec Nat := natBelow UInt32.size 8

def u64 : Codec Nat := natBelow UInt64.size 8

/-- Words of a width, as numbers. -/
def word (width widest : Nat) : Codec (BitVec width) where
  write v := writeNat v.toNat
  read bytes := ((readNat widest bytes).filter (·.1 < 1 <<< width)).map fun (n, rest) =>
    (BitVec.ofNat width n, rest)

/-- Signed numbers alternate: `0, -1, 1, -2, …`. -/
def alternate (n : Int) : Nat := if n < 0 then (-2 * n - 1).toNat else (2 * n).toNat

def fromAlternate (n : Nat) : Int := if n % 2 = 0 then (n / 2 : Nat) else -((n / 2 : Nat) : Int) - 1

/-- Words that stand for signed numbers. -/
def signed (width : Nat) : Codec (BitVec width) where
  write v := writeNat (alternate v.toInt)
  read bytes := ((readNat 8 bytes).filter (·.1 < 1 <<< width)).map fun (n, rest) =>
    (BitVec.ofInt width (fromAlternate n), rest)

def bool : Codec Bool where
  write b := [if b then 1 else 0]
  read
    | 0 :: rest => some (false, rest)
    | 1 :: rest => some (true, rest)
    | _ => none

/-- A codec for a type that has the same values in another form. -/
def via (c : Codec α) (wrap : α → β) (forget : β → α) : Codec β where
  write b := c.write (forget b)
  read bytes := (c.read bytes).map fun (a, rest) => (wrap a, rest)

def pair (c : Codec α) (d : Codec β) : Codec (α × β) where
  write ab := c.write ab.1 ++ d.write ab.2
  read bytes := do
    let (a, rest) ← c.read bytes
    let (b, rest) ← d.read rest
    return ((a, b), rest)

def option (c : Codec α) : Codec (Option α) where
  write
    | none => [0]
    | some a => 1 :: c.write a
  read
    | 0 :: rest => some (none, rest)
    | 1 :: rest => (c.read rest).map fun (a, rest) => (some a, rest)
    | _ => none

def readMany (c : Codec α) : Nat → List UInt8 → Option (List α × List UInt8)
  | 0, bytes => some ([], bytes)
  | n + 1, bytes => do
    let (a, rest) ← c.read bytes
    let (as, rest) ← readMany c n rest
    return (a :: as, rest)

/-- A count, then the elements. -/
def list (c : Codec α) : Codec (List α) where
  write as := writeNat as.length ++ as.flatMap c.write
  read bytes := do
    let (n, rest) ← u64.read bytes
    readMany c n rest

def array (c : Codec α) : Codec (Array α) := c.list.via List.toArray Array.toList

/-- A count, then the bytes. -/
def bytes : Codec ByteArray where
  write b := writeNat b.size ++ b.toList
  read input := do
    let (n, rest) ← u64.read input
    let (content, rest) ← take n rest
    return (⟨content.toArray⟩, rest)

def string : Codec String where
  write s := bytes.write s.toUTF8
  read input := do
    let (content, rest) ← bytes.read input
    return (← String.fromUTF8? content, rest)

/-- Which of several cases follows. -/
def tag : Codec Nat := u32

end Codec
end Wasmill.Image

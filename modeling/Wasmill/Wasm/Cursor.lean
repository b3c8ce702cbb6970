import Wasmill.Error

/-! Reading binary WebAssembly.

A `Cursor` is a place in a window of bytes; it knows where the window lies in the module, so every
failure has a module offset. A `Read` moves the cursor, also when it fails: what was consumed before
the failure stays consumed.

Integers are in LEB128 form: seven bits a byte, low bits first, and no more bytes or bits than the
width admits. -/
namespace Wasmill.Wasm

structure Cursor where
  bytes : ByteArray
  pos : Nat
  stop : Nat
  /-- The module offset of the first of `bytes`. -/
  base : Nat

namespace Cursor

def ofBytes (bytes : ByteArray) (base : Nat) : Cursor := ⟨bytes, 0, bytes.size, base⟩

/-- The place in the module. -/
def offset (c : Cursor) : Nat := c.base + c.pos

def atEnd (c : Cursor) : Bool := c.stop ≤ c.pos

def left (c : Cursor) : Nat := c.stop - c.pos

/-- The bytes of the window that are not read yet. -/
def rest (c : Cursor) : ByteArray := c.bytes.extract c.pos c.stop

end Cursor

abbrev Read := ExceptT Error (StateM Cursor)

namespace Read

def cursor : Read Cursor := fun c => (.ok c, c)

def offset : Read Nat := fun c => (.ok c.offset, c)

def rejectAt (place : Nat) (reason : String) : Read α := throw (.invalid (.rejected reason) place)

def reject (reason : String) : Read α := fun c => (.error (.invalid (.rejected reason) c.offset), c)

/-- What a reader answers on a window of its own. -/
def answer (r : Read α) (c : Cursor) : Except Error α := (r c).1

def peek : Read Nat := fun c =>
  if _h : c.pos < c.stop ∧ c.pos < c.bytes.size then (.ok c.bytes[c.pos].toNat, c)
  else reject "unexpected end" c

def byte : Read Nat := fun c =>
  if _h : c.pos < c.stop ∧ c.pos < c.bytes.size then
    (.ok c.bytes[c.pos].toNat, { c with pos := c.pos + 1 })
  else reject "unexpected end" c

/-- What a reader answers, with nothing consumed. -/
def lookahead (r : Read α) : Read α := fun c => ((r c).1, c)

/-- The next `n` bytes as a window of their own. -/
def window (n : Nat) : Read Cursor := fun c =>
  if c.pos + n ≤ c.stop then (.ok { c with stop := c.pos + n }, { c with pos := c.pos + n })
  else reject "unexpected end" c

def bytes (n : Nat) : Read ByteArray := do
  let w ← window n
  return w.rest

/-- The number whose low byte comes first. -/
def littleEndian (bytes : ByteArray) : Nat := bytes.toList.foldr (fun b n => b.toNat + 256 * n) 0

/-- A number of `n` bytes, the low byte first. -/
def fixed (n : Nat) : Read Nat := do
  let raw ← bytes n
  return littleEndian raw

/-- An unsigned number of at most `width` bits, in at most `groups` bytes. -/
def unsignedGroups : (groups width : Nat) → Read Nat
  | 0, _ => reject "integer representation too long"
  | groups + 1, width => do
    let b ← byte
    if width < 7 && b >>> width ≠ 0 then reject "integer too large"
    else if b < 128 then return b
    else
      let high ← unsignedGroups groups (width - 7)
      return b % 128 + 128 * high

/-- A signed number of at most `width` bits, in at most `groups` bytes. In the last byte the bits
from the sign bit on are all equal. -/
def signedGroups : (groups width : Nat) → Read Int
  | 0, _ => reject "integer representation too long"
  | groups + 1, width => do
    let b ← byte
    let sign := (b % 128) >>> (width - 1)
    if width ≤ 7 && (b ≥ 128 || (sign ≠ 0 && sign ≠ (1 <<< (8 - width)) - 1)) then
      reject "integer too large"
    else if b < 64 then return b
    else if b < 128 then return (b : Int) - 128
    else
      let high ← signedGroups groups (width - 7)
      return ((b % 128 : Nat) : Int) + 128 * high

def u32 : Read Nat := unsignedGroups 5 32

def u64 : Read Nat := unsignedGroups 10 64

def s32 : Read Int := signedGroups 5 32

def s33 : Read Int := signedGroups 5 33

def s64 : Read Int := signedGroups 10 64

/-- As many items as asked for, one after another. -/
def many (item : Read α) : Nat → Array α → Read (Array α)
  | 0, done => return done
  | n + 1, done => do
    let x ← item
    many item n (done.push x)

/-- A count, then as many items. -/
def vec (most : Nat) (item : Read α) : Read (Array α) := do
  let place ← offset
  let n ← u32
  if n > most then rejectAt place "size is out of bounds"
  else many item n #[]

/-- Bytes with their count before them. -/
def sized : Read Cursor := do
  let n ← u32
  window n

/-- A text of `n` bytes. -/
def text (n : Nat) : Read String := do
  let place ← offset
  match String.fromUTF8? (← bytes n) with
  | some s => return s
  | none => rejectAt place "malformed UTF-8 encoding"

/-- A text of any length, with its length before it. -/
def longString : Read String := do
  let n ← u32
  text n

/-- A text with its length before it. -/
def string : Read String := do
  let place ← offset
  let n ← u32
  if n > 100000 then rejectAt place "string size out of bounds" else text n

/-- Refuses what is left of the window. -/
def finished : Read Unit := fun c => if c.atEnd then (.ok (), c) else reject "unexpected data" c

end Read
end Wasmill.Wasm

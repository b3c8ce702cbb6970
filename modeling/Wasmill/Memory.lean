import Wasmill.Config
import Wasmill.ValType

/-! Linear memories.

A memory is an array of pages. Pages that were never written are one and the same zero page. -/
namespace Wasmill

structure Memory where
  bounds : Bounds
  pages : Array ByteArray
  deriving Inhabited

namespace Memory

def zeroPage : ByteArray := ⟨Array.replicate pageSize 0⟩

def new (bounds : Bounds) : Memory := { bounds, pages := Array.replicate bounds.initial zeroPage }

/-- The most pages that 32-bit addresses reach. -/
def maxPages : Nat := 65536

/-- The number of pages. -/
def size (m : Memory) : Nat := m.pages.size

/-- The number of bytes. -/
def byteSize (m : Memory) : Nat := m.size * pageSize

/-- The most pages this memory may have. -/
def most (m : Memory) : Nat := min (m.bounds.maximum.getD maxPages) maxPages

/-- Adds zero pages, unless there would be too many. -/
def grow (m : Memory) (delta : Nat) : Option Memory :=
  if m.size + delta > m.most then none
  else some { m with pages := m.pages ++ Array.replicate delta zeroPage }

def byteAt (m : Memory) (address : Nat) : UInt8 :=
  (m.pages.getD (address / pageSize) ByteArray.empty).get! (address % pageSize)

def setByte (m : Memory) (address : Nat) (b : UInt8) : Memory :=
  { m with pages := m.pages.modify (address / pageSize) (·.set! (address % pageSize) b) }

/-- Whether `len` bytes from `address` on are inside. -/
def holds (m : Memory) (address len : Nat) : Bool := address + len ≤ m.byteSize

def bytesFrom (m : Memory) (address : Nat) : Nat → ByteArray → ByteArray
  | 0, done => done
  | n + 1, done => m.bytesFrom (address + 1) n (done.push (m.byteAt address))

def read (m : Memory) (address len : Nat) : Option ByteArray :=
  if m.holds address len then some (m.bytesFrom address len ByteArray.empty) else none

def setBytes (m : Memory) (address : Nat) : List UInt8 → Memory
  | [] => m
  | b :: rest => (m.setByte address b).setBytes (address + 1) rest

def write (m : Memory) (address : Nat) (bytes : List UInt8) : Option Memory :=
  if m.holds address bytes.length then some (m.setBytes address bytes) else none

/-- The number in the `n` bytes from `address` on, the lowest first. -/
def numberAt (m : Memory) (address : Nat) : Nat → Nat
  | 0 => 0
  | n + 1 => (m.byteAt address).toNat + 256 * m.numberAt (address + 1) n

def load (m : Memory) (address width : Nat) : Option Nat :=
  if m.holds address width then some (m.numberAt address width) else none

/-- Writes the `n` low bytes of a number, the lowest first. -/
def setNumber (m : Memory) (address : Nat) : (n value : Nat) → Memory
  | 0, _ => m
  | n + 1, value =>
    (m.setByte address (UInt8.ofNat value)).setNumber (address + 1) n (value / 256)

end Memory
end Wasmill

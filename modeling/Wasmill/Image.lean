import Wasmill.Image.Block

/-! Images: modules as bytes.

An image is a header with the branch range the code was placed for, and blocks in a fixed order,
each with its tag and its length. An image is restored only for an engine with the same branch range
and interrupt mode, and only if its indices name what is there. -/
namespace Wasmill
namespace Image
open Code

def magic : List UInt8 := [0x00, 0x77, 0x67, 0x6d]

def version : Nat := 2

/-- The content of a block. -/
def content (m : Module) : Tag → List UInt8
  | .metadata => metadata.write m
  | .code => m.code.toList
  | .linkData => linkData.write m.link
  | .imports => funcExit.array.write m.imports
  | .exports => exports.write m.exports
  | .dataSegments => dataSegment.array.write m.data
  | .bytecode => Codec.bytes.option.write m.bytecode

def block (tag : Tag) (content : List UInt8) : List UInt8 :=
  u8 tag.toByte ++ le 8 content.length ++ content

def write (branchRange : Nat) (m : Module) : List UInt8 :=
  magic ++ u32 version ++ u32 branchRange ++ Tag.all.flatMap fun tag => block tag (content m tag)

/-! ### Restoring -/

abbrev Restore := StateT (List UInt8) (Except ImageFault)

namespace Restore

def take (n : Nat) : Restore (List UInt8) := fun bytes =>
  match Codec.take n bytes with
  | some taken => .ok taken
  | none => .error (.truncated n bytes.length)

def number (n : Nat) : Restore Nat := return Codec.fromLe (← take n)

/-- The content of the block that has to come next. -/
def block (tag : Tag) : Restore (List UInt8) := do
  let found ← number 1
  if found ≠ tag.toByte then throw (.blockOrder tag found)
  take (← number 8)

def decoded (tag : Tag) (c : Codec α) : Restore α := do
  match c.decode (← block tag) with
  | some a => return a
  | none => throw (.malformed tag)

def header (branchRange : Nat) : Restore Unit := do
  if (← take 4) ≠ magic then throw .notAnImage
  let found ← number 4
  if found ≠ version then throw (.version found)
  let found ← number 4
  if found ≠ branchRange then throw (.branchRange found branchRange)

def module : Restore Module := do
  let m ← decoded .metadata metadata
  let code ← block .code
  let link ← decoded .linkData linkData
  let imports ← decoded .imports funcExit.array
  let exports ← decoded .exports exports
  let data ← decoded .dataSegments dataSegment.array
  let bytecode ← decoded .bytecode Codec.bytes.option
  let rest ← get
  if !rest.isEmpty then throw (.trailing rest.length)
  return { m with code := ⟨code.toArray⟩, link, imports, exports, data, bytecode }

end Restore

/-- Everything that a module refers to by index has to be there. -/
def checkIndices (m : Module) : Except ImageFault Unit := do
  let sigs := m.env.funcs.toList ++ m.indirectSigs.toList
  if let some sig := sigs.find? (m.env.sigs.size ≤ ·) then
    throw (.indexRange "signature" sig)
  let funcs := (m.elems.toList.flatMap fun s => s.funcs.toList.filterMap id) ++ m.start.toList
  if let some func := funcs.find? (m.env.funcs.size ≤ ·) then
    throw (.indexRange "function" func)

def check (mode : InterruptMode) (m : Module) : Except ImageFault Unit := do
  if m.env.interruptMode ≠ mode then throw (.interrupts m.env.interruptMode)
  if m.ranges.back?.any (m.code.size < ·.stop) then throw .rangesBeyondCode
  checkIndices m

def read (config : Config) (bytes : List UInt8) : Except ImageFault Module := do
  let restore : Restore Module := do
    Restore.header config.maxBranchRange
    Restore.module
  let (m, _) ← restore.run bytes
  check config.interruptMode m
  return m

end Image

/-- The image of a module that was made for an engine. -/
def Module.toImage (m : Module) (config : Config) : ByteArray :=
  ⟨(Image.write config.maxBranchRange m).toArray⟩

def Module.ofImage (config : Config) (bytes : ByteArray) : Except Error Module :=
  (Image.read config bytes.toList).mapError .image

end Wasmill

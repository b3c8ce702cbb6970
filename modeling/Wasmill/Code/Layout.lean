import Wasmill.Code.Link
import Wasmill.Code.Range
import Wasmill.Code.Stub

/-! Placing chunks one after another.

Direct calls reach only so far. A call waits until its callee is placed, but not longer than the
code after it allows: before a chunk could push the end of the code out of reach, a pass goes over
all waiting calls. Calls whose callee is placed in reach are directed there; the others go through a
far jump at the end of the code, one for each callee and pass. Far jumps are linked when all is
placed. -/
namespace Wasmill.Code

structure PendingCall where
  offset : Nat
  patchAt : Nat
  callee : Nat
  deriving DecidableEq, Repr, Inhabited

structure Layout where
  /-- How far a direct call reaches. -/
  reach : Nat
  code : ByteArray := ByteArray.empty
  ranges : Array Range := #[]
  trapSites : Array Site := #[]
  callSites : Array CallSiteDesc := #[]
  link : LinkData := {}
  indirectSigs : Array Nat := #[]
  /-- Where each function is entered, imports at their generic exit. -/
  entries : Array (Option Nat) := #[]
  pendingCalls : Array PendingCall := #[]
  pendingStubs : Array (Nat × StubKind) := #[]
  /-- Operands of far jumps and the functions they lead to. -/
  thunkTargets : Array (Nat × Nat) := #[]
  /-- The end of the code at the last pass. -/
  lastPatched : Nat := 0
  deriving Inhabited

/-- A range kind that knows its place. -/
def RangeKind.placed (start entry : Nat) : RangeKind → RangeKind
  | .function func bytecode _ => .function func bytecode (start + entry)
  | kind => kind

namespace Layout

def entry? (l : Layout) (func : Nat) : Option Nat := (l.entries[func]?).join

def setEntry (l : Layout) (func entry : Nat) : Layout :=
  let entries := l.entries ++ Array.replicate (func + 1 - l.entries.size) none
  { l with entries := entries.setIfInBounds func (some entry) }

end Layout

/-- A step of placing code. It keeps what it did before it failed. -/
abbrev Laying := ExceptT Error (StateM Layout)

namespace Laying

/-- Where the code ends. Offsets are kept in 32 bits. -/
def codeEnd : Laying Nat := do
  let l ← get
  if l.code.size < UInt32.size then return l.code.size else throw (.codeTooLarge .code)

/-- A far jump to a function at the end of the code. -/
def addThunk (callee : Nat) : Laying Nat := do
  let start ← codeEnd
  modify fun l => { l with code := Chunk.appendBytes l.code thunk }
  let stop ← codeEnd
  modify fun l => { l with
    ranges := l.ranges.push ⟨.callThunk callee, start, stop⟩
    thunkTargets := l.thunkTargets.push (start + Chunk.firstOperand, callee) }
  return start

/-- Where a call goes: to its callee in reach, or to a far jump, which may have to be made. -/
def target (thunks : List (Nat × Nat)) (call : PendingCall) :
    Laying (Nat × List (Nat × Nat)) := do
  let l ← get
  let inReach (entry : Nat) : Bool := ((entry : Int) - call.offset).natAbs ≤ l.reach
  match (l.entry? call.callee).filter inReach with
  | some entry => return (entry, thunks)
  | none =>
    match thunks.lookup call.callee with
    | some thunk => return (thunk, thunks)
    | none =>
      let thunk ← addThunk call.callee
      return (thunk, (call.callee, thunk) :: thunks)

def directCall (thunks : List (Nat × Nat)) (call : PendingCall) : Laying (List (Nat × Nat)) := do
  let (target, thunks) ← target thunks call
  let rel := (target : Int) - call.offset
  if rel < -0x80000000 ∨ 0x80000000 ≤ rel then throw (.internal .callDisplacement)
  else
    let l ← get
    match writeU32 l.code call.patchAt (rel % UInt32.size).toNat with
    | .ok code =>
      set { l with code }
      return thunks
    | .error cause => throw (.internal cause)

def directCalls (thunks : List (Nat × Nat)) : List PendingCall → Laying Unit
  | [] => return
  | call :: rest => do directCalls (← directCall thunks call) rest

/-- Directs all waiting calls. None of them waits any more, also where the pass fails. -/
def thunkPass : Laying Unit := do
  let calls := (← get).pendingCalls
  modify fun l => { l with pendingCalls := #[] }
  directCalls [] calls.toList
  let stop ← codeEnd
  modify fun l => { l with lastPatched := stop }

/-- Makes a pass if a chunk of that size, with that many calls, could bring a waiting call out of
reach of the far jumps of the next pass. -/
def reserve (kind : RangeKind) (size calls : Nat) : Laying Unit := do
  let l ← get
  let incoming := size + calls * thunkSize
  if incoming > l.reach then throw (.codeTooLarge (.chunk kind))
  else if l.code.size - l.lastPatched + l.pendingCalls.size * thunkSize + incoming > l.reach then
    thunkPass
  else return

/-- Places a chunk at the end of the code, and gives its offset. -/
def append (chunk : Chunk) (kind : RangeKind) : Laying Nat := do
  reserve kind chunk.code.size chunk.callSites.size
  let start ← codeEnd
  modify fun l => { l with code := l.code ++ chunk.code }
  let stop ← codeEnd
  modify fun l => { l with
    ranges := l.ranges.push ⟨kind.placed start chunk.entry, start, stop⟩
    trapSites := l.trapSites ++ chunk.trapSites.map fun s => ⟨start + s.code, s.bytecode⟩
    callSites := l.callSites ++ chunk.callSites.map fun s => ⟨start + s.returnsTo, s.bytecode⟩
    link :=
      chunk.symbolRefs.foldl (fun link (place, symbol) => link.addSymbol symbol (start + place))
      l.link
    indirectSigs := l.indirectSigs ++ chunk.indirectSigs
    pendingCalls := l.pendingCalls ++ chunk.callSites.map fun s =>
      ⟨start + s.offset, start + s.patchAt, s.callee⟩
    pendingStubs := l.pendingStubs ++ chunk.stubRefs.map fun (place, kind) =>
      (start + place, kind) }
  return start

/-- Places a function, which from then on is entered there. -/
def appendFunction (chunk : Chunk) (func bytecode : Nat) : Laying Unit := do
  let start ← append chunk (.function func bytecode 0)
  modify (·.setEntry func (start + chunk.entry))

end Laying
end Wasmill.Code

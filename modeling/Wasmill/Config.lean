/-! Engine settings. -/
namespace Wasmill

/-- How running code notices that it was asked to stop. -/
inductive InterruptMode
  /-- Compiled checks at function entry and at loop headers. -/
  | polling
  /-- No compiled checks; the machine looks at calls and backward branches. -/
  | signal
  deriving DecidableEq, Repr, Inhabited

def InterruptMode.name : InterruptMode → String
  | .polling => "Polling"
  | .signal => "Signal"

/-- The most of everything a module may declare. -/
structure Limits where
  types : Nat := 1000000
  funcs : Nat := 1000000
  imports : Nat := 100000
  exports : Nat := 100000
  globals : Nat := 1000000
  dataSegments : Nat := 100000
  elemSegments : Nat := 10000000
  tableElems : Nat := 10000000
  memoryPages : Nat := 65536
  params : Nat := 1000
  locals : Nat := 50000
  functionSize : Nat := 7654321
  deriving DecidableEq, Repr, Inhabited

structure Config where
  interruptMode : InterruptMode := .polling
  maxBranchRange : Nat := 33554432
  maxCallDepth : Nat := 10000
  retainBytecode : Bool := false
  optimizeImports : Bool := true
  /-- The number of helpers that compile function bodies; none compiles each body when it is given.
  -/
  threads : Option Nat := none
  limits : Limits := {}
  deriving DecidableEq, Repr, Inhabited

/-- Bytes in a page of linear memory. -/
def pageSize : Nat := 65536

end Wasmill

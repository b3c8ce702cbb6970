import Wasmill.Code.Link
import Wasmill.Env

/-! Compiled modules. -/
namespace Wasmill
open Code

/-- A function import and the code that calls it. -/
structure Import where
  source : ImportName
  sig : Nat
  /-- The place of the exit record in global data. -/
  record : Nat
  interpExit : Nat
  jitExit : Nat
  deriving DecidableEq, Inhabited

/-- An exported function and the stub that enters it. -/
structure Export where
  func : Nat
  sig : Nat
  entry : Nat
  deriving DecidableEq, Inhabited

/-- What the name of an export stands for; functions by their place among the exported ones. -/
inductive ExportItem
  | function (exportIndex : Nat)
  | table (index : Nat)
  | memory
  | global (index : Nat)
  deriving DecidableEq, Inhabited

structure Exports where
  funcs : Array Export := #[]
  names : Array (String × ExportItem) := #[]
  deriving DecidableEq, Inhabited

def Exports.find? (e : Exports) (name : String) : Option ExportItem :=
  (e.names.find? (·.1 == name)).map (·.2)

structure DataSegment where
  offset : InitExpr
  bytes : ByteArray
  deriving Inhabited

structure ElemSegment where
  table : Nat
  offset : InitExpr
  funcs : Array (Option Nat)
  deriving DecidableEq, Inhabited

structure Module where
  env : Env
  /-- In the order of the code. -/
  ranges : Array Range
  /-- In the order of the code. -/
  trapSites : Array Site
  callSites : Array CallSiteDesc
  start : Option Nat
  /-- Where the start function is entered. -/
  startEntry : Option Nat
  elems : Array ElemSegment
  stubs : StubOffsets
  /-- The signatures that indirect calls expect, in order. -/
  indirectSigs : Array Nat
  name : Option String
  /-- In the order of the functions. -/
  funcNames : Array (Nat × String)
  code : ByteArray
  link : LinkData
  imports : Array Import
  exports : Exports
  data : Array DataSegment
  /-- The binary it was compiled from, if that is kept. -/
  bytecode : Option ByteArray
  deriving Inhabited

namespace Module

def linked (m : Module) : Except Broken ByteArray := m.link.link m.code

def rangeAt? (m : Module) (pc : Nat) : Option Range := Range.find? m.ranges pc

def funcName? (m : Module) (func : Nat) : Option String :=
  (Search.findKey? Prod.fst func m.funcNames).map (·.2)

/-- Whom to blame for a trap at `pc`: the operator the instruction came from, or else the body. -/
def trapInfo (m : Module) (trap : Trap) (pc : Nat) : TrapInfo :=
  let range := m.rangeAt? pc
  let body :=
    match range.map (·.kind) with
    | some (.function _ bytecode _) => some bytecode
    | _ => none
  { trap, func := range.bind (·.func?), offset := Site.find? m.trapSites pc <|> body }

end Module
end Wasmill

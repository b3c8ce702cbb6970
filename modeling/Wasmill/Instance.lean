import Wasmill.Code.Fetch
import Wasmill.Module

/-! Instances, and the global data their code works on. -/
namespace Wasmill

/-- Which exit calls of an import take. -/
inductive ImportState
  | interpreted
  | optimized
  /-- The optimized code went away. -/
  | reverted
  deriving DecidableEq, Repr, Inhabited

namespace ImportState

def name : ImportState → String
  | .interpreted => "Interpreted"
  | .optimized => "Optimized"
  | .reverted => "Reverted"

def number : ImportState → Nat
  | .interpreted => 0
  | .optimized => 1
  | .reverted => 2

def ofNumber? : Nat → Option ImportState
  | 0 => some .interpreted
  | 1 => some .optimized
  | 2 => some .reverted
  | _ => none

end ImportState

/-- Global data: numbers at places, low bytes first. -/
structure GlobalData where
  bytes : ByteArray
  deriving Inhabited

namespace GlobalData

def zero (len : Nat) : GlobalData := ⟨⟨Array.replicate len 0⟩⟩

def read? (d : GlobalData) (place len : Nat) : Option Nat :=
  if place + len ≤ d.bytes.size then some (Code.Fetch.leAt d.bytes place len) else none

def read (d : GlobalData) (place len : Nat) : Except Broken Nat :=
  match d.read? place len with
  | some n => .ok n
  | none => .error (.dataRead place)

def readGlobal (d : GlobalData) (place : Nat) (ty : ValType) : Except Broken Slot :=
  match d.read? place ty.byteSize with
  | some n => .ok (BitVec.ofNat 128 n)
  | none => .error (.globalRead place)

def write (d : GlobalData) (place len value : Nat) : Except Broken GlobalData :=
  if place + len ≤ d.bytes.size then .ok ⟨Code.overwrite d.bytes place (Code.le len value)⟩
  else .error (.dataWrite place)

def writeGlobal (d : GlobalData) (place : Nat) (ty : ValType) (value : Slot) :
    Except Broken GlobalData := d.write place ty.byteSize value.toNat

/-- An exit record: the code offset of the exit in use, then the state. -/
def writeExit (d : GlobalData) (place target : Nat) (state : ImportState) :
    Except Broken GlobalData :=
  d.write place 8 (target + (state.number <<< (8 * Env.exitStateOffset)))

def exitTarget (d : GlobalData) (place : Nat) : Except Broken Nat := d.read place 4

def exitState (d : GlobalData) (place : Nat) : Except Broken ImportState := do
  let _ ← d.exitTarget place
  match ImportState.ofNumber? (← d.read (place + Env.exitStateOffset) 4) with
  | some state => return state
  | none => throw (.exitRecord place)

end GlobalData

structure Instance where
  module : Module
  engine : Nat
  /-- The code of the module, linked. -/
  code : ByteArray
  data : GlobalData
  memory : Option Nat
  tables : Array Nat
  hosts : Array Nat
  /-- Held for the signatures that indirect calls expect. -/
  tokens : Array Nat
  interrupted : Bool := false
  profiling : Bool := false
  /-- How often each function was entered while profiling, in the order of the functions. -/
  profile : List (Nat × Nat) := []
  /-- How many hold the instance. -/
  handles : Nat := 1
  deriving Inhabited

namespace Instance

def alive (i : Instance) : Bool := 0 < i.handles

/-- The value of a global by its index. -/
def global (i : Instance) (index : Nat) : Except Broken Val :=
  match i.module.env.globals[index]? with
  | some desc => return (← i.data.readGlobal desc.place desc.ty.content).toVal desc.ty.content
  | none => .error .unknownGlobal

def importState (i : Instance) (index : Nat) : Option ImportState :=
  i.module.imports[index]?.bind fun imp => (i.data.exitState imp.record).toOption

def importSig (i : Instance) (index : Nat) : Except Broken Sig :=
  match i.module.imports[index]? with
  | none => .error (.unknownImport index)
  | some imp =>
    match i.module.env.sigs[imp.sig]? with
    | some sig => .ok sig
    | none => .error .importSignature

def host (i : Instance) (index : Nat) : Except Broken Nat :=
  match i.hosts[index]? with
  | some host => .ok host
  | none => .error (.unknownImport index)

/-- The table whose handle lies at a place of global data. -/
def tableAt (i : Instance) (place : Nat) : Except Broken Nat := do
  match i.tables[← i.data.read place 4]? with
  | some table => return table
  | none => throw (.tableHandle place)

/-- Counts one more entry of a function. -/
def counted (func : Nat) : List (Nat × Nat) → List (Nat × Nat)
  | [] => [(func, 1)]
  | (f, n) :: rest =>
    if f < func then (f, n) :: counted func rest
    else if f = func then (f, n + 1) :: rest
    else (func, 1) :: (f, n) :: rest

/-- Sends an import's calls back to the generic exit, if they took the optimized one. -/
def deoptimize (i : Instance) (index : Nat) : Instance :=
  match i.module.imports[index]? with
  | none => i
  | some imp =>
    if (i.data.exitState imp.record).toOption = some .optimized then
      match i.data.writeExit imp.record imp.interpExit .reverted with
      | .ok data => { i with data }
      | .error _ => i
    else i

/-- The entry of a function that is used while profiling is on or off, for one of its entries. -/
def entryFor (m : Module) (on : Bool) (entry : Nat) : Nat :=
  match (m.rangeAt? entry).bind (·.entries?) with
  | some (counting, regular) =>
    if on && entry == regular then counting
    else if !on && entry == counting then regular
    else entry
  | none => entry

end Instance
end Wasmill

import Wasmill.Wasm.Cursor

/-! The name section.

Names are for people only: what can be read up to the first mistake counts, and mistakes are no
failure. -/
namespace Wasmill.Wasm

structure Names where
  module : Option String := none
  /-- In the order they are written. -/
  funcs : Array (Nat × String) := #[]
  deriving Inhabited

/-- Reads that collect names, and keep them when they fail. -/
abbrev ReadNames := StateT Names (StateM Cursor)

namespace Names

/-- Does `next` with what is read, or stops. -/
def orStop (r : Read α) (next : α → ReadNames Bool) : ReadNames Bool := fun names c =>
  match r c with
  | (.ok a, c) => next a names c
  | (.error _, c) => ((false, names), c)

def funcNames : Nat → ReadNames Bool
  | 0 => orStop Read.finished fun _ => return true
  | n + 1 =>
    let naming : Read (Nat × String) := do
      let func ← Read.u32
      return (func, ← Read.longString)
    orStop naming fun entry => do
      modify fun names => { names with funcs := names.funcs.push entry }
      funcNames n

/-- A subsection in a window of its own. Those that are not used have to start with a count. -/
def subsection (kind : Nat) (content : Cursor) : ReadNames Bool := fun names outer =>
  let inner : ReadNames Bool :=
    match kind with
    | 0 => orStop (do let name ← Read.longString; Read.finished; return name) fun name => do
      modify fun names => { names with module := some name }
      return true
    | 1 => orStop Read.u32 funcNames
    | _ => if kind ≤ 11 then orStop Read.u32 fun _ => return true else return true
  ((inner names content).1, outer)

/-- Subsections until the window ends or one is wrong, at most as many as asked for. -/
def subsections : Nat → ReadNames Unit
  | 0 => return
  | fuel + 1 => do
    let c ← show ReadNames Cursor from fun names c => ((c, names), c)
    if c.atEnd then return
    else
      let head : Read (Nat × Cursor) := do
        let kind ← Read.byte
        if kind ≥ 128 then Read.reject "invalid u7"
        else return (kind, ← Read.sized)
      if ← orStop head fun (kind, content) => subsection kind content then subsections fuel

end Names

def Names.read (c : Cursor) : Names := ((Names.subsections (c.left + 1) {} c).1).2

end Wasmill.Wasm

import Wasmill.Code.Chunk

/-! Code that is made once for a module: the way in to exported functions, the ways out to imports,
and the shared targets of traps and failures. -/
namespace Wasmill.Code
namespace Chunk

/-- Results come back in the first slot. -/
def resultSlot (sig : Sig) : Nat := if sig.result.isSome then 0 else noSlot

/-- Takes the arguments from the first slots, calls the function, and hands its result back. -/
def entryStub (callee : Nat) (sig : Sig) : Chunk :=
  let nargs := sig.params.length
  ofLines
    [{ instr := .entryPrologue nargs },
      { instr := .call (-1) (List.range nargs) (resultSlot sig), calls := some (callee, 0) },
      { instr := .entryReturn (resultSlot sig) }]

def exitStub (optimized : Bool) (symbol : Symbol) (importIndex : Nat) (sig : Sig) : Chunk :=
  let nargs := sig.params.length
  ofLines
    [{ instr := .prologue (max nargs 1) unlinked },
      { instr := .exit optimized unlinked importIndex nargs unlinked, symbol := some symbol },
      { instr := .ret (resultSlot sig) }]

/-- The generic way out to an import. -/
def interpExit (importIndex : Nat) (sig : Sig) : Chunk :=
  exitStub false (.callImport sig.result) importIndex sig

/-- The direct way out to an import's optimized code. -/
def jitExit (importIndex : Nat) (sig : Sig) : Chunk :=
  exitStub true .callOptimized importIndex sig

def trapStub (trap : Trap) : Chunk := ofLines [{ instr := .trapExit trap }]

def throwStub : Chunk := ofLines [{ instr := .unwind }]

end Chunk

/-- A far jump. -/
def thunk : List UInt8 := (Instr.jumpFar unlinked).encode

def thunkSize : Nat := 5

end Wasmill.Code

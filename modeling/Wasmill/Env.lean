import Wasmill.Error

/-! What a module declares, as far as compiling its functions depends on it.

Signatures, function imports, tables and globals each have a slot in the global data of an instance:
a signature the token it is registered under, an import the record of the exit in use, a table its
handle, a global its value. -/
namespace Wasmill

/-- The module and the name something is imported by. -/
structure ImportName where
  module : String
  name : String
  deriving DecidableEq, Inhabited

structure FuncImport where
  source : ImportName
  sig : Nat
  /-- The place of the exit record in global data. -/
  record : Nat
  deriving DecidableEq, Inhabited

structure TableDesc where
  bounds : Bounds
  source : Option ImportName
  /-- The place of the table handle in global data. -/
  handle : Nat
  deriving DecidableEq, Inhabited

structure MemoryDesc where
  bounds : Bounds
  source : Option ImportName
  deriving DecidableEq, Inhabited

inductive GlobalInit
  | const (init : InitExpr)
  | imported (source : ImportName)
  deriving DecidableEq, Inhabited

structure GlobalDesc where
  ty : GlobalType
  init : GlobalInit
  /-- The place of the value in global data. -/
  place : Nat
  deriving DecidableEq, Inhabited

/-- The places of the signatures' tokens in global data. -/
structure TokenPlaces where
  /-- In the order of the signatures. -/
  listed : Array Nat := #[]
  /-- The place of every signature that is not listed. -/
  others : Nat := 0
  deriving DecidableEq, Inhabited

namespace TokenPlaces

def get (p : TokenPlaces) (sig : Nat) : Nat := p.listed.getD sig p.others

def push (p : TokenPlaces) (place : Nat) : TokenPlaces := { p with listed := p.listed.push place }

end TokenPlaces

structure Env where
  sigs : Array Sig := #[]
  /-- The signature of every function, imports first. -/
  funcs : Array Nat := #[]
  funcImports : Array FuncImport := #[]
  tables : Array TableDesc := #[]
  memory : Option MemoryDesc := none
  globals : Array GlobalDesc := #[]
  sigTokens : TokenPlaces := {}
  globalDataLen : Nat := 0
  interruptMode : InterruptMode := .polling
  limits : Limits := {}
  deriving DecidableEq, Inhabited

namespace Env

/-- The exit record of an import: the code offset of the exit in use, then the import's state. -/
def exitRecordSize : Nat := 16

def exitStateOffset : Nat := 4

def tableHandleSize : Nat := 8

def sigTokenSize : Nat := 8

def importedFuncs (env : Env) : Nat := env.funcImports.size

def definedFuncs (env : Env) : Nat := env.funcs.size - env.importedFuncs

/-- Imports come first; the other functions are defined by the module. -/
def isDefined (env : Env) (func : Nat) : Bool := env.importedFuncs ≤ func && func < env.funcs.size

def sigOf? (env : Env) (func : Nat) : Option Sig := env.funcs[func]?.bind (env.sigs[·]?)

def sigToken (env : Env) (sig : Nat) : Nat := env.sigTokens.get sig

def alignUp (n align : Nat) : Nat := (n + align - 1) / align * align

/-- Room for `size` bytes of global data at a multiple of `align`. Rounding up adds in 32 bits
before it is known whether there is room. -/
def reserve (env : Env) (size align : Nat) : Except Error (Nat × Env) :=
  if env.globalDataLen + align < UInt32.size then
    let place := alignUp env.globalDataLen align
    if place + size < UInt32.size then .ok (place, { env with globalDataLen := place + size })
    else .error (.limit .globalData 0xffffffff)
  else .error .panic

/-- Refuses one more of something of which there are `current` already. -/
def checkLimit (what : Resource) (current max : Nat) : Except Error Unit :=
  if current < max then .ok () else .error (.limit what max)

def checkSig (env : Env) (sig : Nat) : Except Error Unit :=
  if sig < env.sigs.size then .ok () else .error (.invalid (.unknownType sig) 0)

end Env
end Wasmill

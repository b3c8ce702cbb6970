/-! The blocks of a module image, in their order. -/
namespace Wasmill.Image

inductive Tag
  | metadata
  | code
  | linkData
  | imports
  | exports
  | dataSegments
  | bytecode
  deriving DecidableEq, Repr, Inhabited

namespace Tag

def all : List Tag :=
  [.metadata, .code, .linkData, .imports, .exports, .dataSegments, .bytecode]

def toByte : Tag → Nat
  | .metadata => 0
  | .code => 1
  | .linkData => 2
  | .imports => 3
  | .exports => 4
  | .dataSegments => 5
  | .bytecode => 6

def ofByte? (byte : Nat) : Option Tag := all[byte]?

def name : Tag → String
  | .metadata => "Metadata"
  | .code => "Code"
  | .linkData => "LinkData"
  | .imports => "Imports"
  | .exports => "Exports"
  | .dataSegments => "DataSegments"
  | .bytecode => "Bytecode"

end Tag
end Wasmill.Image

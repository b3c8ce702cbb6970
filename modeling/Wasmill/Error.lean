import Wasmill.Code.Range
import Wasmill.Config
import Wasmill.Image.Tag
import Wasmill.Trap
import Wasmill.Val

/-! Everything that can go wrong, as causes.

Each family of failures has its own type of causes with one `message`; `Error` gathers the families
and gives the full text. -/
namespace Wasmill

/-- Why a module or a function body is refused. -/
inductive Fault
  /-- The binary does not read, or does not validate. -/
  | rejected (reason : String)
  | unknownType (index : Nat)
  | unknownGlobal (index : Nat)
  | unknownFunction (index : Nat)
  | unknownTable (index : Nat)
  | unknownMemory (index : Nat)
  | unknownLocal (index : Nat)
  | globalInitType
  | duplicateExport (name : String)
  | startSignature
  | dataWithoutMemory
  | laneRange (lane : Nat) (shape : String)
  | shuffleRange (lane : Nat)
  | accessWithoutMemory
  | memoryInstructionWithoutMemory
  | branchDepth (depth : Nat)
  | elseOutsideIf
  | endWithoutBlock
  | operatorsAfterEnd
  | noBody (func : Nat)
  deriving DecidableEq

def Fault.message : Fault → String
  | .rejected reason => reason
  | .unknownType i => s!"unknown type {i}"
  | .unknownGlobal i => s!"unknown global {i}"
  | .unknownFunction i => s!"unknown function {i}"
  | .unknownTable i => s!"unknown table {i}"
  | .unknownMemory i => s!"unknown memory {i}"
  | .unknownLocal i => s!"unknown local {i}"
  | .globalInitType => "type mismatch in global initializer"
  | .duplicateExport name => s!"duplicate export name `{name}`"
  | .startSignature => "start function must not take or return values"
  | .dataWithoutMemory => "data segment without a memory"
  | .laneRange lane shape => s!"lane index {lane} out of range for {shape}"
  | .shuffleRange lane => s!"shuffle lane index {lane} out of range"
  | .accessWithoutMemory => "memory access without a memory"
  | .memoryInstructionWithoutMemory => "memory instruction without a memory"
  | .branchDepth depth => s!"invalid branch depth {depth}"
  | .elseOutsideIf => "else outside of if"
  | .endWithoutBlock => "end without matching block"
  | .operatorsAfterEnd => "operators remaining after end of function"
  | .noBody func => s!"function {func} has no body"

/-- What a limit counts. -/
inductive Resource
  | types
  | params
  | funcs
  | imports
  | exports
  | globals
  | elemSegments
  | dataSegments
  | tableElems
  | memoryPages
  | locals
  | bodyBytes
  | globalData
  deriving DecidableEq

def Resource.name : Resource → String
  | .types => "types"
  | .params => "function parameters"
  | .funcs => "functions"
  | .imports => "imports"
  | .exports => "exports"
  | .globals => "globals"
  | .elemSegments => "element segments"
  | .dataSegments => "data segments"
  | .tableElems => "table elements"
  | .memoryPages => "memory pages"
  | .locals => "locals"
  | .bodyBytes => "function body bytes"
  | .globalData => "global data bytes"

/-- Valid modules may still use what is not compiled. -/
inductive Feature
  | referenceType
  | multiValue
  | gcTypes
  | exceptions
  | tableInit
  | inactiveElems
  | inactiveData
  | wideOrSharedTables
  | tablesOf (ty : String)
  | memory64
  | sharedMemory
  | customPageSizes
  | wideBound (what : String) (value : Nat)
  | sharedGlobals
  | extendedConst
  | constOpcode (offset : Nat)
  | elemExpr
  | multipleMemories
  | blockTypes
  | wideOffset (offset : Nat)
  | operator (name : String)
  deriving DecidableEq

def Feature.message : Feature → String
  | .referenceType => "reference type"
  | .multiValue => "multi-value results"
  | .gcTypes => "GC types"
  | .exceptions => "exception handling"
  | .tableInit => "table initializer expressions"
  | .inactiveElems => "passive and declared element segments"
  | .inactiveData => "passive data segments and multiple memories"
  | .wideOrSharedTables => "64-bit and shared tables"
  | .tablesOf ty => s!"tables of {ty}"
  | .memory64 => "memory64"
  | .sharedMemory => "shared memories (threads)"
  | .customPageSizes => "custom page sizes"
  | .wideBound what value => s!"{what} {value} does not fit in 32 bits"
  | .sharedGlobals => "shared globals"
  | .extendedConst => "extended constant expressions"
  | .constOpcode offset => "opcode in constant expression at offset " ++ hex offset
  | .elemExpr => "element expression"
  | .multipleMemories => "multiple memories"
  | .blockTypes => "blocks with parameters or multiple results"
  | .wideOffset offset => "memory offset " ++ hex offset
  | .operator name => s!"operator {name}"

/-- Code that does not fit where it has to go. -/
inductive Oversize
  | frame
  | displacement
  | chunk (kind : Code.RangeKind)
  | code
  deriving DecidableEq

def Oversize.text : Oversize → String
  | .frame => "function frame"
  | .displacement => "branch displacement"
  | .chunk kind => kind.text
  | .code => "module"

inductive InstantiationFault
  | funcCount (expected given : Nat)
  | missingTable (module name : String)
  | tableBounds (module name : String) (expected got : Bounds)
  | tableEngine (module name : String)
  | extraTables
  | memoryBounds (expected got : Bounds)
  | missingMemory
  | unexpectedMemory
  | missingGlobal (module name : String)
  | globalType (module name : String) (got expected : ValType)
  | extraGlobals
  deriving DecidableEq

def InstantiationFault.message : InstantiationFault → String
  | .funcCount expected given => s!"module imports {expected} functions but {given} were provided"
  | .missingTable m n => s!"missing table import {m}.{n}"
  | .tableBounds m n expected got =>
    s!"table import {m}.{n} is incompatible, expected " ++ expected.text "TableType" ++ " got "
      ++ got.text "TableType"
  | .tableEngine m n => s!"table import {m}.{n} belongs to a different engine"
  | .extraTables => "too many table imports provided"
  | .memoryBounds expected got =>
    "memory import is incompatible, expected " ++ expected.text "MemoryType" ++ " got "
      ++ got.text "MemoryType"
  | .missingMemory => "missing memory import"
  | .unexpectedMemory => "a memory was provided but the module does not import one"
  | .missingGlobal m n => s!"missing global import {m}.{n}"
  | .globalType m n got expected =>
    s!"global import {m}.{n} has type {got.name}, expected {expected.name}"
  | .extraGlobals => "too many global imports provided"

inductive Mismatch
  | noConversion (source target : ValType)
  | noResult (expected : ValType)
  deriving DecidableEq

def Mismatch.message : Mismatch → String
  | .noConversion source target => s!"cannot convert {source.name} value to {target.name}"
  | .noResult expected => s!"host function returned nothing, expected {expected.name}"

/-- Why an image cannot be restored. -/
inductive ImageFault
  | truncated (needed left : Nat)
  | blockOrder (expected : Image.Tag) (found : Nat)
  | malformed (tag : Image.Tag)
  | notAnImage
  | version (found : Nat)
  | branchRange (found expected : Nat)
  | trailing (count : Nat)
  | interrupts (mode : InterruptMode)
  | rangesBeyondCode
  | indexRange (what : String) (index : Nat)
  deriving DecidableEq

def ImageFault.message : ImageFault → String
  | .truncated needed left =>
    s!"unexpected end of input, {needed} bytes needed but only {left} left"
  | .blockOrder expected found =>
    let seen :=
      match Image.Tag.ofByte? found with
      | some tag => tag.name
      | none => s!"unknown tag {found}"
    s!"expected {expected.name} block, found {seen}"
  | .malformed tag => s!"malformed {tag.name} block"
  | .notAnImage => "not a serialized module"
  | .version found => s!"unsupported format version {found}"
  | .branchRange found expected =>
    s!"module was compiled for a branch range of {found} bytes, the engine uses {expected}"
  | .trailing count => s!"{count} trailing bytes"
  | .interrupts mode => s!"module was compiled for {mode.name} interrupts"
  | .rangesBeyondCode => "code ranges exceed the code"
  | .indexRange what index => s!"{what} index {index} is out of range"

/-- Broken promises between the parts: a misused generator, or code that was not made by it. -/
inductive Broken
  | importAfterFunction
  | declarationAfterCodegen
  | declarationAfterDefinitions
  | noCompileSlot
  | notDefined (func : Nat)
  | compiledTwice (func : Nat)
  | callDisplacement
  | unplacedThunk (func : Nat)
  | unplacedElement (func : Nat)
  | operatorsBeforeLocals
  | stackUnderflow
  | unknownLocal (index : Nat)
  | deadLoopBranch
  | elseOutsideIf
  | unboundBranch
  | argumentCount (block params args : Nat)
  | patchSite (offset : Nat)
  | truncatedInstruction (offset : Nat)
  | invalidOpcode (byte offset : Nat)
  | unlinkedOperand (offset : Nat)
  | branchLeavesCode (pc : Nat)
  | invalidOperand (what : String) (pc : Nat)
  | slotRead (slot : Nat)
  | slotWrite (slot : Nat)
  | returnWithoutFrame
  | missingReturnValue
  | importArguments
  | loadWithoutMemory
  | storeWithoutMemory
  | tooFewArguments
  | wrongSymbol (pc : Nat)
  | unwindWithoutError
  | exportSignature
  | dataRead (offset : Nat)
  | globalRead (offset : Nat)
  | dataWrite (offset : Nat)
  | unknownGlobal
  | exitRecord (offset : Nat)
  | tableHandle (offset : Nat)
  | unknownImport (index : Nat)
  | importSignature
  | initializerGlobal (index : Nat)
  | segmentOffset (ty : ValType)
  | segmentTable
  deriving DecidableEq

def Broken.message : Broken → String
  | .importAfterFunction => "function imports after function declarations"
  | .declarationAfterCodegen => "module declarations after code generation finished"
  | .declarationAfterDefinitions => "module declarations after function definitions started"
  | .noCompileSlot => "no compile slot available"
  | .notDefined func => s!"function {func} is not defined"
  | .compiledTwice func => s!"function {func} compiled twice"
  | .callDisplacement => "call displacement overflows"
  | .unplacedThunk func => s!"thunk to unplaced function {func}"
  | .unplacedElement func => s!"table element {func} was never placed"
  | .operatorsBeforeLocals => "operators read before local declarations"
  | .stackUnderflow => "value stack underflow"
  | .unknownLocal index => s!"unknown local {index}"
  | .deadLoopBranch => "branch to a loop entered in dead code"
  | .elseOutsideIf => "else outside of if"
  | .unboundBranch => "branch to an unbound destination"
  | .argumentCount block params args => s!"block{block} expects {params} arguments, got {args}"
  | .patchSite offset => s!"patch site {hex offset} out of bounds"
  | .truncatedInstruction offset => s!"truncated instruction at {hex offset}"
  | .invalidOpcode byte offset => s!"invalid opcode {hex byte} at {hex offset}"
  | .unlinkedOperand offset => s!"unlinked operand at {hex offset}"
  | .branchLeavesCode pc => s!"branch at {hex pc} leaves the code"
  | .invalidOperand what pc => s!"invalid {what} operand at {hex pc}"
  | .slotRead slot => s!"read of slot {slot} outside the frame"
  | .slotWrite slot => s!"write of slot {slot} outside the frame"
  | .returnWithoutFrame => "return without a frame"
  | .missingReturnValue => "missing return value"
  | .importArguments => "import arguments outside the frame"
  | .loadWithoutMemory => "load without memory"
  | .storeWithoutMemory => "store without memory"
  | .tooFewArguments => "entry called with too few arguments"
  | .wrongSymbol pc => s!"import exit at {hex pc} linked to the wrong symbol"
  | .unwindWithoutError => "unwind without a pending error"
  | .exportSignature => "export with unknown signature"
  | .dataRead offset => s!"global data read at {hex offset} out of bounds"
  | .globalRead offset => s!"global read at {hex offset} out of bounds"
  | .dataWrite offset => s!"global data write at {hex offset} out of bounds"
  | .unknownGlobal => "unknown global"
  | .exitRecord offset => s!"corrupt exit record at {hex offset}"
  | .tableHandle offset => s!"corrupt table handle at {hex offset}"
  | .unknownImport index => s!"unknown import {index}"
  | .importSignature => "import with unknown signature"
  | .initializerGlobal index => s!"initializer reads global {index}"
  | .segmentOffset ty => s!"segment offset of type {ty.name}"
  | .segmentTable => "element segment for unknown table"

inductive Error
  | invalid (fault : Fault) (offset : Nat)
  | limit (what : Resource) (max : Nat)
  | unsupported (feature : Feature)
  | codeTooLarge (what : Oversize)
  | trap (info : TrapInfo)
  /-- A host function failed; the outermost context comes first. -/
  | host (chain : List String)
  | instantiation (fault : InstantiationFault)
  | typeMismatch (cause : Mismatch)
  | unknownExport (name : String)
  | image (fault : ImageFault)
  | internal (cause : Broken)
  /-- The program ends: an index that nothing stands for, or a sum that does not fit. -/
  | panic
  deriving DecidableEq

def Error.message : Error → String
  | .invalid fault offset => s!"invalid WASM input at {offset}: {fault.message}"
  | .limit what max => s!"too many {what.name} (the limit is {max})"
  | .unsupported feature =>
    "Feature used by the WebAssembly code is not supported: " ++ feature.message
  | .codeTooLarge what =>
    s!"code for {what.text} does not fit into the branch range of the backend"
  | .trap info => info.message
  | .host chain => "host function failed: " ++ ": ".intercalate chain
  | .instantiation fault => "instantiation failed: " ++ fault.message
  | .typeMismatch cause => "type mismatch: " ++ cause.message
  | .unknownExport name => s!"unknown export `{name}`"
  | .image fault => "failed to deserialize module: " ++ fault.message
  | .internal cause => "internal error: " ++ cause.message
  | .panic => "panic"

end Wasmill

import Wasmill.Error
import Wasmill.Registry
import Wasmill.Ssa.Op
import Wasmill.Wasm.Cursor
import Wasmill.Wasm.Type
import Wasmill.Wasm.Opcode
import Wasmill.Wasm.Body
import Wasmill.Env
import Wasmill.Ssa.Function
import Wasmill.Ssa.Text
import Wasmill.Ssa.Builder
import Wasmill.Ssa.Control
import Wasmill.Ssa.Compile
import Wasmill.Code.Instr
import Wasmill.Code.Symbol
import Wasmill.Code.Fetch
import Wasmill.Code.Chunk
import Wasmill.Code.Link
import Wasmill.Code.Lower
import Wasmill.Code.Stub
import Wasmill.Code.Layout
import Wasmill.Module
import Wasmill.Generator
import Wasmill.Wasm.Names
import Wasmill.Wasm.Section
import Wasmill.Wasm.Valid.Context
import Wasmill.Wasm.Valid.Group
import Wasmill.Wasm.Valid.Code
import Wasmill.Wasm.Valid.Const
import Wasmill.Wasm.Valid.Section
import Wasmill.Wasm.Binary
import Wasmill.Image
import Wasmill.Memory
import Wasmill.Ssa.Eval
import Wasmill.Host
import Wasmill.Instance
import Wasmill.Table
import Wasmill.World
import Wasmill.Instantiate
import Wasmill.Machine
import Wasmill.Session
import Wasmill.Registry.Handles
import Wasmill.Proofs.Action
import Wasmill.Proofs.Ssa.Run
import Wasmill.Proofs.Ssa.Meaning
import Wasmill.Proofs.Code.Assembly
import Wasmill.Proofs.Code.Lines
import Wasmill.Proofs.Code.Lowering
import Wasmill.Proofs.Code.Placing
import Wasmill.Proofs.Code.Passing
import Wasmill.Proofs.Code.Linking
import Wasmill.Proofs.Effects
import Wasmill.Proofs.Generator.Consistent
import Wasmill.Proofs.Generator.Defining
import Wasmill.Proofs.Generator.Declaring
import Wasmill.Proofs.Generator.Finishing
import Wasmill.Proofs.Generator.History
import Wasmill.Proofs.Generator.Whole
import Wasmill.Proofs.Ssa.Compiled
import Wasmill.Proofs.Machine.Fetching
import Wasmill.Proofs.Machine.Deeds
import Wasmill.Proofs.Generator.Logged
import Wasmill.Proofs.Generator.Calls
import Wasmill.Proofs.World.Moves
import Wasmill.Proofs.Machine.Moving
import Wasmill.Proofs.Machine.Lowered
import Wasmill.Proofs.Machine.Leaving
import Wasmill.Proofs.Named
import Wasmill.Proofs.Registry.Holding
import Wasmill.Proofs.Registry.Handles
import Wasmill.Proofs.Image.Blocks
import Wasmill.Proofs.Image.Indexed
import Wasmill.Proofs.Code.Fitting
import Wasmill.Proofs.Generator.Fitting
import Wasmill.Proofs.Generator.FittingCode
import Wasmill.Proofs.Generator.Slots
import Wasmill.Proofs.Image.Codec
import Wasmill.Proofs.Image.Parts
import Wasmill.Proofs.Image.Restored
import Wasmill.Proofs.Machine.Entering
import Wasmill.Proofs.Generator.Places
import Wasmill.Proofs.Session.Refusals
import Wasmill.Proofs.Generator.Limits
import Wasmill.Proofs.Generator.Room
import Wasmill.Proofs.Generator.Tiling
import Wasmill.Proofs.Generator.Blaming
import Wasmill.Proofs.Generator.Relocating
import Wasmill.Proofs.Machine.Stacking
import Wasmill.Proofs.Ssa.Inert
import Wasmill.Proofs.Generator.Depth
import Wasmill.Proofs.Memory
import Wasmill.Proofs.Ssa.Lanewise
import Wasmill.Proofs.Ssa.Pruning

import TaskVm.Act
import TaskVm.Channel
import TaskVm.Chunk
import TaskVm.Chunk.Listing
import TaskVm.Code.Layout
import TaskVm.Code.Opcode
import TaskVm.Config.Loader
import TaskVm.Config.OfToml
import TaskVm.Config.Project
import TaskVm.Config.Runtime
import TaskVm.Config.VmJson
import TaskVm.Dice
import TaskVm.Error
import TaskVm.FileTree
import TaskVm.Heap
import TaskVm.Heap.Equality
import TaskVm.Heap.Json
import TaskVm.Heap.Operations
import TaskVm.Heap.Render
import TaskVm.Hook
import TaskVm.Hook.Recorder
import TaskVm.Host
import TaskVm.Json
import TaskVm.Json.Access
import TaskVm.Json.Reader
import TaskVm.Json.Skip
import TaskVm.Json.Writer
import TaskVm.Machine
import TaskVm.Machine.Calls
import TaskVm.Machine.Channels
import TaskVm.Machine.Exec
import TaskVm.Machine.Instruction
import TaskVm.Machine.Run
import TaskVm.Native.Builder
import TaskVm.Native.Builtins
import TaskVm.Native.Cache
import TaskVm.Native.Call
import TaskVm.Number
import TaskVm.Number.Decimal
import TaskVm.Number.Percent
import TaskVm.Number.Shortest
import TaskVm.Number.Text
import TaskVm.OrderedMap
import TaskVm.Profiler
import TaskVm.ProgramFile
import TaskVm.ProgramFile.Linker
import TaskVm.ProgramFile.Reader
import TaskVm.ProgramFile.Writer
import TaskVm.Scheduler
import TaskVm.Task
import TaskVm.Task.Frame
import TaskVm.Task.Upvalues
import TaskVm.Text.Blank
import TaskVm.Text.Case
import TaskVm.Text.CaseTable
import TaskVm.Text.Hex
import TaskVm.Text.Plain
import TaskVm.Text.Quoted
import TaskVm.Text.Split
import TaskVm.Toml
import TaskVm.Toml.Numeral
import TaskVm.Toml.Reader
import TaskVm.Toml.Text
import TaskVm.Toml.Time
import TaskVm.Value
import TaskVm.Proofs.Computation
import TaskVm.Proofs.Growth
import TaskVm.Proofs.Changes
import TaskVm.Proofs.Crew
import TaskVm.Proofs.Scheduling
import TaskVm.Proofs.Net
import TaskVm.Proofs.Following
import TaskVm.Proofs.Exchange
import TaskVm.Proofs.Parking
import TaskVm.Proofs.Operations
import TaskVm.Proofs.Turns
import TaskVm.Proofs.Ticks
import TaskVm.Proofs.Runs
import TaskVm.Proofs.Lines
import TaskVm.Proofs.Lineup
import TaskVm.Proofs.Trades
import TaskVm.Proofs.OpenCells
import TaskVm.Proofs.Waiters
import TaskVm.Proofs.Delivery
import TaskVm.Proofs.Waiting
import TaskVm.Proofs.Deadlock
import TaskVm.Proofs.Selection
import TaskVm.Proofs.Transfers
import TaskVm.Proofs.Readiness
import TaskVm.Proofs.Fields
import TaskVm.Proofs.Records
import TaskVm.Proofs.Discovery
import TaskVm.Proofs.Linking
import TaskVm.Proofs.Isomorphism
import TaskVm.Proofs.RoundTrip
import TaskVm.Proofs.Truncation
import TaskVm.Proofs.Cycles
import TaskVm.Proofs.Deeds
import TaskVm.Proofs.Handlers
import TaskVm.Proofs.Boxes
import TaskVm.Proofs.Sharing
import TaskVm.Proofs.Upvalues
import TaskVm.Proofs.Accesses
import TaskVm.Proofs.Variables
import TaskVm.Proofs.Switches
import TaskVm.Proofs.Pausing
import TaskVm.Proofs.Bystanders
import TaskVm.Proofs.Ground
import TaskVm.Proofs.Executing
import TaskVm.Proofs.Decoding
import TaskVm.Proofs.Pieces
import TaskVm.Proofs.Boundaries
import TaskVm.Proofs.Jumps
import TaskVm.Proofs.Balance
import TaskVm.Proofs.Catching
import TaskVm.Proofs.Globals
import TaskVm.Proofs.Embedding
import TaskVm.Proofs.Methods
import TaskVm.Proofs.SlotMemory
import TaskVm.Proofs.Apart
import TaskVm.Proofs.Bisimilarity
import TaskVm.Proofs.Endless
import TaskVm.Proofs.Bindings
import TaskVm.Proofs.Entrywise
import TaskVm.Proofs.Rounding
import TaskVm.Proofs.Numerals
import TaskVm.Proofs.Documents
import TaskVm.Proofs.Copies
import TaskVm.Proofs.Conversion
import TaskVm.Proofs.Unfolding
import TaskVm.Proofs.Failures
import TaskVm.Proofs.Budget
import TaskVm.Proofs.Calm
import TaskVm.Proofs.Stirring
import TaskVm.Proofs.CallEvents
import TaskVm.Proofs.ErrorEvents
import TaskVm.Proofs.Limits
import TaskVm.Proofs.Locals
import TaskVm.Proofs.Renumbering
import TaskVm.Proofs.Texts
import TaskVm.Proofs.Echoes
import TaskVm.Proofs.EchoedChannels
import TaskVm.Proofs.EchoedInstructions
import TaskVm.Proofs.EchoedTurns
import TaskVm.Proofs.EchoedRuns
import TaskVm.Proofs.Numbering
import TaskVm.Proofs.Service
import TaskVm.Proofs.Reuse
import TaskVm.Proofs.Quantities
import TaskVm.Proofs.Positions
import TaskVm.Proofs.Separators
import TaskVm.Proofs.Layers
import TaskVm.Proofs.Reading
import TaskVm.Proofs.Pending
import TaskVm.Proofs.Traces
import TaskVm.Proofs.CellMap
import TaskVm.Proofs.PathNames
import TaskVm.Proofs.Projects

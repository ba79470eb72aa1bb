import TagMachine.Bytes
import TagMachine.Bytes.LittleEndian
import TagMachine.Numeral
import TagMachine.Lookup
import TagMachine.Cell
import TagMachine.Opcode
import TagMachine.Fault
import TagMachine.Config
import TagMachine.Memory.Layout
import TagMachine.Memory
import TagMachine.Stack
import TagMachine.Heap
import TagMachine.Channel.Input
import TagMachine.Channel.Output
import TagMachine.Files.FileSystem
import TagMachine.Files.Sandbox
import TagMachine.Program
import TagMachine.Machine.State
import TagMachine.Machine.Execute
import TagMachine.Machine.Run
import TagMachine.Code.Instruction
import TagMachine.Code.Listing
import TagMachine.Code.Draft
import TagMachine.Text.Blank
import TagMachine.Code.OperandText
import TagMachine.Code.Source
import TagMachine.Toml.Number
import TagMachine.Toml.Tree
import TagMachine.Toml.Document
import TagMachine.Toml.Settings
import TagMachine.Session.Settings
import TagMachine.Session
import TagMachine.Command.Arguments
import TagMachine.Command.Execute
import TagMachine.Main
import TagMachine.Proofs.Bits
import TagMachine.Proofs.Memory.Registers
import TagMachine.Proofs.Memory.View
import TagMachine.Proofs.Sequencing
import TagMachine.Proofs.Memory.Tape
import TagMachine.Proofs.Memory.Loading
import TagMachine.Proofs.Memory.Looks
import TagMachine.Proofs.Memory.Cells
import TagMachine.Proofs.Memory.Anywhere
import TagMachine.Proofs.Runner
import TagMachine.Proofs.ValueMachine
import TagMachine.Proofs.Operations
import TagMachine.Proofs.Ownership
import TagMachine.Proofs.Lockstep.Setting
import TagMachine.Proofs.Lockstep.Stack
import TagMachine.Proofs.Lockstep.Strings
import TagMachine.Proofs.Lockstep.World
import TagMachine.Proofs.Lockstep.Integers
import TagMachine.Proofs.Lockstep.Texts
import TagMachine.Proofs.Lockstep.Step
import TagMachine.Proofs.Refinement
import TagMachine.Proofs.Confinement
import TagMachine.Proofs.SingleOwnership
import TagMachine.Proofs.Stages
import TagMachine.Proofs.SwapCheck
import TagMachine.Proofs.Exchange
import TagMachine.Proofs.Code.Cutting
import TagMachine.Proofs.Code.Digits
import TagMachine.Proofs.Code.Grammar
import TagMachine.Proofs.Code.Spelling
import TagMachine.Proofs.Code.ProgramText
import TagMachine.Proofs.Code.Linking
import TagMachine.Proofs.Code.Assembly
import TagMachine.Proofs.Code.Resolution
import TagMachine.Proofs.Code.Jumping
import TagMachine.Proofs.Code.Sweeping
import TagMachine.Proofs.Code.Relisting
import TagMachine.Proofs.Code.Tiling
import TagMachine.Proofs.Decoding.Operands
import TagMachine.Proofs.Decoding
import TagMachine.Proofs.Respects
import TagMachine.Proofs.Carries
import TagMachine.Proofs.Components
import TagMachine.Proofs.Session.Reading
import TagMachine.Proofs.Session.Collecting
import TagMachine.Proofs.Parts
import TagMachine.Proofs.Worlds
import TagMachine.Proofs.Session.Recutting
import TagMachine.Proofs.Session.Lookahead
import TagMachine.Proofs.Session.Framing
import TagMachine.Proofs.Session.Cuts
import TagMachine.Proofs.Files.Standing
import TagMachine.Proofs.Files.Isolation
import TagMachine.Proofs.ZeroFree
import TagMachine.Proofs.Footprint.Memory
import TagMachine.Proofs.Fetches
import TagMachine.Proofs.Footprint.Instructions
import TagMachine.Proofs.Footprint
import TagMachine.Proofs.Ensures
import TagMachine.Proofs.Guards.Memory
import TagMachine.Proofs.Guards
import TagMachine.Proofs.HeapCalls
import TagMachine.Proofs.TwoStrings
import TagMachine.Proofs.Arithmetic
import TagMachine.Proofs.Lifecycle
import TagMachine.Proofs.Reloading.Residue
import TagMachine.Proofs.Reloading.Cells
import TagMachine.Proofs.Reloading.Instructions
import TagMachine.Proofs.Reloading
import TagMachine.Proofs.CycleLimit
import TagMachine.Proofs.OutputLimit
import TagMachine.Proofs.Ceilings.Twins
import TagMachine.Proofs.Ceilings.Instructions
import TagMachine.Proofs.Ceilings
import TagMachine.Proofs.Ranges.Checked
import TagMachine.Proofs.Ranges.Memory
import TagMachine.Proofs.Ranges.Bytes
import TagMachine.Proofs.Ranges.Instructions
import TagMachine.Proofs.Ranges
import TagMachine.Proofs.LeadingNumber
import TagMachine.Proofs.Performing
import TagMachine.Proofs.IntegerText
import TagMachine.Proofs.Session.Lengths
import TagMachine.Proofs.Lines
import TagMachine.Proofs.Files.LastWrite
import TagMachine.Proofs.Lifetimes
import TagMachine.Proofs.Memory.ByteView
import TagMachine.Proofs.ExactLoading

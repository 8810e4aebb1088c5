import HostScript.Code.Bytes
import HostScript.Code.Compiled
import HostScript.Code.Instr
import HostScript.Code.Listing
import HostScript.Code.Opcode
import HostScript.Code.StringPool
import HostScript.Code.TypeGuard
import HostScript.Code.Writer
import HostScript.Command.Args
import HostScript.Command.Basic
import HostScript.Command.Repl
import HostScript.Command.Report
import HostScript.Command.Style
import HostScript.Compile.Basic
import HostScript.Compile.Emit
import HostScript.Diagnostic
import HostScript.Host.Builder
import HostScript.Host.Call
import HostScript.Host.Core
import HostScript.Host.Declared
import HostScript.Host.Describe
import HostScript.Host.Read
import HostScript.Host.Registry
import HostScript.Host.Value
import HostScript.Host.World
import HostScript.Json.Basic
import HostScript.Json.Float
import HostScript.Json.Parse
import HostScript.Json.Print
import HostScript.Literal
import HostScript.Machine.Fault
import HostScript.Machine.Limits
import HostScript.Machine.References
import HostScript.Machine.Run
import HostScript.Machine.State
import HostScript.Machine.Step
import HostScript.Main
import HostScript.Number.Binary
import HostScript.Number.Decimal
import HostScript.Number.Read
import HostScript.Operator
import HostScript.Proofs.Code.Codec
import HostScript.Proofs.Code.Generic
import HostScript.Proofs.Code.Guards
import HostScript.Proofs.Code.Listing
import HostScript.Proofs.Code.Operands
import HostScript.Proofs.Code.Written
import HostScript.Proofs.Compile.Accepted
import HostScript.Proofs.Compile.Accesses
import HostScript.Proofs.Compile.Allotment
import HostScript.Proofs.Compile.Depth
import HostScript.Proofs.Compile.Discipline
import HostScript.Proofs.Compile.Entries
import HostScript.Proofs.Compile.Folding
import HostScript.Proofs.Compile.Growth
import HostScript.Proofs.Compile.Heights
import HostScript.Proofs.Compile.Layout
import HostScript.Proofs.Compile.Output
import HostScript.Proofs.Compile.Placement
import HostScript.Proofs.Compile.Positions
import HostScript.Proofs.Compile.Problems
import HostScript.Proofs.Compile.Rows
import HostScript.Proofs.Compile.Script
import HostScript.Proofs.Compile.Sites
import HostScript.Proofs.Compile.Slots
import HostScript.Proofs.Compile.Stack
import HostScript.Proofs.Compile.Statements
import HostScript.Proofs.Compile.Uses
import HostScript.Proofs.Compile.Widths
import HostScript.Proofs.Host.Built
import HostScript.Proofs.Host.Registrations
import HostScript.Proofs.Host.Showing
import HostScript.Proofs.Levels.Agreement
import HostScript.Proofs.Levels.Expressions
import HostScript.Proofs.Levels.Instructions
import HostScript.Proofs.Levels.Loops
import HostScript.Proofs.Levels.Mirror
import HostScript.Proofs.Levels.Rounds
import HostScript.Proofs.Levels.Script
import HostScript.Proofs.Levels.Statements
import HostScript.Proofs.Levels.Variables
import HostScript.Proofs.Machine.Agreement
import HostScript.Proofs.Machine.Balance
import HostScript.Proofs.Machine.Binding
import HostScript.Proofs.Machine.Blind
import HostScript.Proofs.Machine.Calls
import HostScript.Proofs.Machine.Capacity
import HostScript.Proofs.Machine.Cycle
import HostScript.Proofs.Machine.Dispatch
import HostScript.Proofs.Machine.Effect
import HostScript.Proofs.Machine.History
import HostScript.Proofs.Machine.Inputs
import HostScript.Proofs.Machine.Listed
import HostScript.Proofs.Machine.Moves
import HostScript.Proofs.Machine.Ownership
import HostScript.Proofs.Machine.Primitives
import HostScript.Proofs.Machine.Reports
import HostScript.Proofs.Machine.Runs
import HostScript.Proofs.Machine.Scales
import HostScript.Proofs.Machine.Shape
import HostScript.Proofs.Machine.Shows
import HostScript.Proofs.Machine.Simulation
import HostScript.Proofs.Machine.Sparing
import HostScript.Proofs.Machine.Spots
import HostScript.Proofs.Machine.Tiers
import HostScript.Proofs.Machine.Unseen
import HostScript.Proofs.Machine.Vetting
import HostScript.Proofs.Machine.View
import HostScript.Proofs.Machine.WellFormed
import HostScript.Proofs.Meaning.BorneOut
import HostScript.Proofs.Meaning.Execution
import HostScript.Proofs.Meaning.Expressions
import HostScript.Proofs.Meaning.Foreach
import HostScript.Proofs.Meaning.Instructions
import HostScript.Proofs.Meaning.Loops
import HostScript.Proofs.Meaning.Path
import HostScript.Proofs.Meaning.Preservation
import HostScript.Proofs.Meaning.Report
import HostScript.Proofs.Meaning.Run
import HostScript.Proofs.Meaning.Script
import HostScript.Proofs.Meaning.Start
import HostScript.Proofs.Meaning.Statements
import HostScript.Proofs.Meaning.Types
import HostScript.Proofs.Meaning.WholeNumbers
import HostScript.Proofs.Number.Fractionless
import HostScript.Proofs.Number.Integral
import HostScript.Proofs.Number.Numeral
import HostScript.Proofs.Number.Packing
import HostScript.Proofs.Number.Whole
import HostScript.Proofs.References.Hooks
import HostScript.Proofs.References.InPlace
import HostScript.Proofs.References.Record
import HostScript.Proofs.References.Requests
import HostScript.Proofs.References.Spare
import HostScript.Proofs.References.Table
import HostScript.Proofs.Script.Balance
import HostScript.Proofs.Script.Blocks
import HostScript.Proofs.Script.Every
import HostScript.Proofs.Script.Grammar
import HostScript.Proofs.Script.Names
import HostScript.Proofs.Script.Parsed
import HostScript.Proofs.Script.Places
import HostScript.Proofs.Script.Reading
import HostScript.Proofs.Script.Rendering
import HostScript.Proofs.Script.RoundTrip
import HostScript.Proofs.Semantics.Calc
import HostScript.Proofs.Semantics.Evaluate
import HostScript.Proofs.Semantics.Fractionless
import HostScript.Proofs.Semantics.Iteration
import HostScript.Proofs.Semantics.Outcomes
import HostScript.Proofs.Semantics.Safety
import HostScript.Proofs.Semantics.Soundness
import HostScript.Proofs.Semantics.Throughout
import HostScript.Proofs.Stateful
import HostScript.Proofs.Text.LineColumn
import HostScript.Proofs.Text.Lower
import HostScript.Proofs.Token.Boundaries
import HostScript.Proofs.Token.Comments
import HostScript.Proofs.Token.Numerals
import HostScript.Proofs.Token.Recasing
import HostScript.Proofs.Token.Spans
import HostScript.Proofs.Typing.Again
import HostScript.Proofs.Typing.Branches
import HostScript.Proofs.Typing.Derivation
import HostScript.Proofs.Typing.Facts
import HostScript.Proofs.Typing.Frames
import HostScript.Proofs.Typing.Imports
import HostScript.Proofs.Typing.Judgement
import HostScript.Proofs.Typing.Linked
import HostScript.Proofs.Typing.Scope
import HostScript.Proofs.Typing.Settled
import HostScript.Script.Basic
import HostScript.Script.Parse
import HostScript.Text.Case
import HostScript.Text.Class
import HostScript.Text.Lines
import HostScript.Token.Basic
import HostScript.Token.Scan
import HostScript.Ty
import HostScript.Typing.Check
import HostScript.Typing.Context
import HostScript.Typing.Operators
import HostScript.Typing.Symbols

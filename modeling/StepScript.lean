import StepScript.Act
import StepScript.Assoc
import StepScript.Codec.Binary
import StepScript.Codec.Stream
import StepScript.CommandLine.Arguments
import StepScript.CommandLine.Run
import StepScript.Diagnostic
import StepScript.Entity
import StepScript.Failure
import StepScript.Files.Listing
import StepScript.Files.Path
import StepScript.Files.Scripts
import StepScript.Files.Tree
import StepScript.Handle
import StepScript.Host.Basic
import StepScript.Host.Step
import StepScript.Json.Basic
import StepScript.Json.Reader
import StepScript.Machine.Basic
import StepScript.Machine.Context
import StepScript.Machine.Plan
import StepScript.Machine.Repair
import StepScript.Machine.Save
import StepScript.Machine.Stack
import StepScript.Machine.Variable
import StepScript.Main
import StepScript.Number.Binary
import StepScript.Number.Digits
import StepScript.Number.Fixed
import StepScript.Number.Literal
import StepScript.Number.Shortest
import StepScript.Operator
import StepScript.Script.Basic
import StepScript.Script.Command
import StepScript.Script.Dialect
import StepScript.Script.Label
import StepScript.Script.Line
import StepScript.Script.Structured
import StepScript.Script.Token
import StepScript.Session
import StepScript.Setting
import StepScript.Table
import StepScript.Text.Case
import StepScript.Text.CaseTable
import StepScript.Text.Space
import StepScript.Value
import StepScript.Proofs.Codec.RoundTrip
import StepScript.Proofs.Table.Fresh
import StepScript.Proofs.Codec.Records
import StepScript.Proofs.Codec.Range
import StepScript.Proofs.Machine.Removal
import StepScript.Proofs.Script.Extent
import StepScript.Proofs.Machine.Forest
import StepScript.Proofs.Machine.Growth
import StepScript.Proofs.Machine.Ownership
import StepScript.Proofs.Machine.Sound
import StepScript.Proofs.Machine.Moves
import StepScript.Proofs.Host.Operation
import StepScript.Proofs.Machine.Cell
import StepScript.Proofs.Machine.Restore
import StepScript.Proofs.Machine.EndCalls
import StepScript.Proofs.Host.Reachable
import StepScript.Proofs.Machine.Mend
import StepScript.Proofs.Machine.Alike
import StepScript.Proofs.Machine.Truncation
import StepScript.Proofs.Machine.Renaming
import StepScript.Proofs.Machine.InStep
import StepScript.Proofs.Machine.ReadyInStep
import StepScript.Proofs.Host.InStep
import StepScript.Proofs.Host.Resume
import StepScript.Proofs.Host.Confinement
import StepScript.Proofs.Host.Signal
import StepScript.Proofs.Host.Execution
import StepScript.Proofs.Host.Promise
import StepScript.Proofs.Machine.Opening
import StepScript.Proofs.Host.Reentry
import StepScript.Proofs.Machine.FixedPoint
import StepScript.Proofs.Host.Commute
import StepScript.Proofs.Machine.Remnants
import StepScript.Proofs.Machine.Oversize
import StepScript.Proofs.Host.Overtaken
import StepScript.Proofs.Host.Awaited
import StepScript.Proofs.Host.Scoping
import StepScript.Proofs.Json.ReadBack
import StepScript.Proofs.Script.Dialects
import StepScript.Proofs.Machine.Bounded
import StepScript.Proofs.Machine.Checked
import StepScript.Proofs.Host.Bounds
import StepScript.Proofs.Host.Landing
import StepScript.Proofs.Host.History
import StepScript.Proofs.Host.Subroutine
import StepScript.Proofs.Host.Registry
import StepScript.Proofs.Machine.Marks
import StepScript.Proofs.Host.Handout
import StepScript.Proofs.Script.Lexeme
import StepScript.Proofs.Table.Names
import StepScript.Proofs.Host.Refusal
import StepScript.Proofs.Host.Cancel
import StepScript.Proofs.Script.LabelLine
import StepScript.Proofs.Script.LabelKey
import StepScript.Proofs.Host.Jump
import StepScript.Proofs.Number.Difference
import StepScript.Proofs.Value.SmartEquality
import StepScript.Proofs.Value.Integer
import StepScript.Proofs.Script.Size
import StepScript.Proofs.Session.Pieces
import StepScript.Proofs.Session.Forward
import StepScript.Proofs.Codec.Exact
import StepScript.Proofs.Codec.Canonical
import StepScript.Proofs.Codec.AllOrNothing
import StepScript.Proofs.Files.Contents
import StepScript.Proofs.Files.Steps
import StepScript.Proofs.Files.Places
import StepScript.Proofs.Files.Scripts
import StepScript.Proofs.CommandLine.Check

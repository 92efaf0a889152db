import LogTemplate.Call.Basic
import LogTemplate.Call.Shape
import LogTemplate.Console.Invocation
import LogTemplate.Console.Json
import LogTemplate.Console.Output
import LogTemplate.Console.Session
import LogTemplate.Console.Style
import LogTemplate.Delimiter
import LogTemplate.Diff.Lines
import LogTemplate.Diff.Script
import LogTemplate.Digest
import LogTemplate.Edit.Basic
import LogTemplate.Edit.Batch
import LogTemplate.Edit.Plan
import LogTemplate.Logger
import LogTemplate.Main
import LogTemplate.Message.Operand
import LogTemplate.Message.Template
import LogTemplate.Path
import LogTemplate.Proofs.Call.Layout
import LogTemplate.Proofs.Delimiter.Reader
import LogTemplate.Proofs.Edit.Batch
import LogTemplate.Proofs.Message.Operand
import LogTemplate.Proofs.Message.Placeholder
import LogTemplate.Proofs.Proposal.Change
import LogTemplate.Proofs.Proposal.Coverage
import LogTemplate.Proofs.Proposal.Numbering
import LogTemplate.Proofs.Proposal.Origin
import LogTemplate.Proofs.Proposal.Scan
import LogTemplate.Proofs.Proposal.Span
import LogTemplate.Proofs.Source.Extent
import LogTemplate.Proofs.Source.Lines
import LogTemplate.Proofs.Source.Place
import LogTemplate.Proofs.Text.Cut
import LogTemplate.Proofs.Text.Trim
import LogTemplate.Proposal.Basic
import LogTemplate.Proposal.Formatter
import LogTemplate.Settings.Basic
import LogTemplate.Settings.Decode
import LogTemplate.Settings.Load
import LogTemplate.Source.Buffer
import LogTemplate.Source.Position
import LogTemplate.Source.Statement
import LogTemplate.Text.Basic
import LogTemplate.Text.Blank
import LogTemplate.Text.DecimalDigit
import LogTemplate.Text.Letter
import LogTemplate.Text.Utf8
import LogTemplate.Toml.Document
import LogTemplate.Toml.Number
import LogTemplate.Toml.Scalar
import LogTemplate.Toml.Value
import LogTemplate.Workspace.Basic
import LogTemplate.Workspace.Edits
import LogTemplate.Workspace.Fault
import LogTemplate.Proofs.Edit.Weave
import LogTemplate.Proofs.Path.Order
import LogTemplate.Proofs.Text.Utf8
import LogTemplate.Proofs.Workspace.Batch
import LogTemplate.Proofs.Delimiter.Literal
import LogTemplate.Proofs.Message.Quoted
import LogTemplate.Proofs.Proposal.Verdict
import LogTemplate.Proofs.Proposal.Rewrite
import LogTemplate.Proofs.Source.Above
import LogTemplate.Proofs.Proposal.Settled
import LogTemplate.Proofs.Call.Exchange
import LogTemplate.Proofs.Proposal.Enclosing
import LogTemplate.Proofs.Proposal.SecondPass
import LogTemplate.Proofs.Logger.Declaration
import LogTemplate.Proofs.Proposal.Agreement
import LogTemplate.Proofs.Source.Returns
import LogTemplate.Proofs.Workspace.Tree
import LogTemplate.Proofs.Console.Fix
import LogTemplate.Proofs.Delimiter.Group
import LogTemplate.Proofs.Message.Concatenation
import LogTemplate.Proofs.Message.Filling
import LogTemplate.Proofs.Console.Account
import LogTemplate.Proofs.Message.Budget
import LogTemplate.Proofs.Proposal.Replacement
import LogTemplate.Proofs.Source.Location
import LogTemplate.Proofs.Proposal.Trigger
import LogTemplate.Proofs.Edit.Acceptance
import LogTemplate.Proofs.Text.Letter
import LogTemplate.Proofs.Call.Grammar
import LogTemplate.Proofs.Proposal.LevelConstant
import LogTemplate.Proofs.Edit.Reordering
import LogTemplate.Proofs.Edit.Reapplication
import LogTemplate.Proofs.Edit.Pinning
import LogTemplate.Proofs.Source.Partition
import LogTemplate.Proofs.Edit.Overlap
import LogTemplate.Proofs.Delimiter.Boundary
import LogTemplate.Proofs.Logger.Decision
import LogTemplate.Proofs.Slicing.Call
import LogTemplate.Proofs.Slicing.Message
import LogTemplate.Proofs.Slicing.Formatter
import LogTemplate.Proofs.Delimiter.Bytes
import LogTemplate.Proofs.Delimiter.Automaton
import LogTemplate.Proofs.Delimiter.Balance
import LogTemplate.Proofs.Path.Ancestors
import LogTemplate.Proofs.Settings.Issues
import LogTemplate.Proofs.Settings.Load
import LogTemplate.Proofs.Console.Collect

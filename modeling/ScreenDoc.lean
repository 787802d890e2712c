import ScreenDoc.Action
import ScreenDoc.Binary64.Basic
import ScreenDoc.Binary64.Decimal
import ScreenDoc.Binding
import ScreenDoc.CommandLine.Arguments
import ScreenDoc.CommandLine.Basic
import ScreenDoc.DecodeError
import ScreenDoc.Diagnostic
import ScreenDoc.Dispatch.Basic
import ScreenDoc.Dispatch.Scripted
import ScreenDoc.Document
import ScreenDoc.Editor
import ScreenDoc.Finding
import ScreenDoc.Json.Basic
import ScreenDoc.Json.Draft
import ScreenDoc.Json.Fault
import ScreenDoc.Json.Numeral
import ScreenDoc.Json.Printer
import ScreenDoc.Json.Reader
import ScreenDoc.Json.Record
import ScreenDoc.Json.StringLiteral
import ScreenDoc.KeyMap
import ScreenDoc.Main
import ScreenDoc.Modifier
import ScreenDoc.Node.Basic
import ScreenDoc.Node.Edit
import ScreenDoc.Node.Flatten
import ScreenDoc.Node.Index
import ScreenDoc.Node.Properties
import ScreenDoc.Node.Type
import ScreenDoc.Proofs.Binary64.Rounding
import ScreenDoc.Proofs.Binding.Merge
import ScreenDoc.Proofs.Binding.Snapshot
import ScreenDoc.Proofs.Binding.Sync
import ScreenDoc.Proofs.Dispatch.DepthLimit
import ScreenDoc.Proofs.Dispatch.Depths
import ScreenDoc.Proofs.Dispatch.Effect
import ScreenDoc.Proofs.Dispatch.Elsewhere
import ScreenDoc.Proofs.Dispatch.Frame
import ScreenDoc.Proofs.Dispatch.Grouping
import ScreenDoc.Proofs.Dispatch.Interference
import ScreenDoc.Proofs.Dispatch.Pruning
import ScreenDoc.Proofs.Dispatch.Returning
import ScreenDoc.Proofs.Dispatch.Scripts
import ScreenDoc.Proofs.Dispatch.Steps
import ScreenDoc.Proofs.Dispatch.Unlimited
import ScreenDoc.Proofs.Editor.Edits
import ScreenDoc.Proofs.Editor.Frame
import ScreenDoc.Proofs.Editor.Outcome
import ScreenDoc.Proofs.Editor.Undo
import ScreenDoc.Proofs.Editor.Validity
import ScreenDoc.Proofs.Editor.View
import ScreenDoc.Proofs.Editor.Visible
import ScreenDoc.Proofs.Except
import ScreenDoc.Proofs.Finding
import ScreenDoc.Proofs.Json.AsWritten
import ScreenDoc.Proofs.Json.Canonical
import ScreenDoc.Proofs.Json.Draft
import ScreenDoc.Proofs.Json.Exact
import ScreenDoc.Proofs.Json.Fits
import ScreenDoc.Proofs.Json.InRange
import ScreenDoc.Proofs.Json.Numeral
import ScreenDoc.Proofs.Json.Reader
import ScreenDoc.Proofs.Json.Record
import ScreenDoc.Proofs.Json.Reorder
import ScreenDoc.Proofs.Json.Stable
import ScreenDoc.Proofs.Json.StringLiteral
import ScreenDoc.Proofs.Json.Without
import ScreenDoc.Proofs.Json.Written
import ScreenDoc.Proofs.KeyMap
import ScreenDoc.Proofs.MapM
import ScreenDoc.Proofs.Node.Address
import ScreenDoc.Proofs.Node.Arena
import ScreenDoc.Proofs.Node.Focus
import ScreenDoc.Proofs.Node.Ids
import ScreenDoc.Proofs.Node.Index
import ScreenDoc.Proofs.Node.Located
import ScreenDoc.Proofs.Node.Lookup
import ScreenDoc.Proofs.Node.Occurrence
import ScreenDoc.Proofs.Node.Rank
import ScreenDoc.Proofs.Node.Replace
import ScreenDoc.Proofs.Node.Traverse
import ScreenDoc.Proofs.Same
import ScreenDoc.Proofs.State.Registry
import ScreenDoc.Proofs.State.Value
import ScreenDoc.Proofs.Validate.Agreement
import ScreenDoc.Proofs.Validate.Blame
import ScreenDoc.Proofs.Validate.Edit
import ScreenDoc.Proofs.Validate.Exactness
import ScreenDoc.Proofs.Validate.Follow
import ScreenDoc.Proofs.Validate.Modes
import ScreenDoc.Proofs.Validate.Paths
import ScreenDoc.Proofs.Validate.Positions
import ScreenDoc.Proofs.Validate.Rule
import ScreenDoc.Proofs.Validate.Soundness
import ScreenDoc.Proofs.Validate.StrictComplete
import ScreenDoc.Proofs.Validate.StrictSound
import ScreenDoc.Proofs.Validate.Tags
import ScreenDoc.Proofs.Validate.Trimmed
import ScreenDoc.Proofs.Validate.Unrecognized
import ScreenDoc.Proofs.Validate.Walk
import ScreenDoc.Proofs.Validate.Written
import ScreenDoc.Proofs.Wire.Action
import ScreenDoc.Proofs.Wire.Buffered
import ScreenDoc.Proofs.Wire.Children
import ScreenDoc.Proofs.Wire.Decoded
import ScreenDoc.Proofs.Wire.Distinct
import ScreenDoc.Proofs.Wire.Encoding
import ScreenDoc.Proofs.Wire.Exact
import ScreenDoc.Proofs.Wire.FieldOrder
import ScreenDoc.Proofs.Wire.Ignored
import ScreenDoc.Proofs.Wire.Node
import ScreenDoc.Proofs.Wire.Properties
import ScreenDoc.Proofs.Wire.Reached
import ScreenDoc.Proofs.Wire.Reencode
import ScreenDoc.Proofs.Wire.RoundTrip
import ScreenDoc.Proofs.Wire.Routes
import ScreenDoc.Proofs.Wire.Stable
import ScreenDoc.Proofs.Wire.Trimmed
import ScreenDoc.Settings
import ScreenDoc.State.Registry
import ScreenDoc.State.Value
import ScreenDoc.Text.Numeral
import ScreenDoc.Text.Quoted
import ScreenDoc.Validate.Basic
import ScreenDoc.Validate.Fields
import ScreenDoc.Validate.Path
import ScreenDoc.Validate.Rules
import ScreenDoc.Validate.Tags
import ScreenDoc.Validate.Typed
import ScreenDoc.Wire.Action
import ScreenDoc.Wire.Document
import ScreenDoc.Wire.Finding
import ScreenDoc.Wire.Modifier
import ScreenDoc.Wire.Node

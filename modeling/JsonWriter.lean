import JsonWriter.Text.Basic
import JsonWriter.Text.Utf8
import JsonWriter.Text.Utf16
import JsonWriter.Text.Escape
import JsonWriter.Text.Printable
import JsonWriter.Text.Quoted
import JsonWriter.Decimal.Digits
import JsonWriter.Decimal.Binary64
import JsonWriter.Decimal.Shortest
import JsonWriter.Decimal.Number
import JsonWriter.Decimal.Numeral
import JsonWriter.Setting
import JsonWriter.Fault
import JsonWriter.Value.Basic
import JsonWriter.Value.Key
import JsonWriter.Value.Equality
import JsonWriter.Value.Mapping
import JsonWriter.Value.Operator
import JsonWriter.Value.Members
import JsonWriter.Value.Octets
import JsonWriter.Value.Shown
import JsonWriter.Value.Conversion
import JsonWriter.Generator.Basic
import JsonWriter.Generator.Configure
import JsonWriter.Session.Profile
import JsonWriter.Session.Basic
import JsonWriter.Session.Action
import JsonWriter.Session.Read
import JsonWriter.Render.Token
import JsonWriter.Render.Part
import JsonWriter.Render.Machine
import JsonWriter.Render.Printer
import JsonWriter.Generate
import JsonWriter.RawObject
import JsonWriter.Report
import JsonWriter.Operation
import JsonWriter.Script
import JsonWriter.Proofs.Tree
import JsonWriter.Proofs.Layout.Recursion
import JsonWriter.Proofs.Layout.Settled
import JsonWriter.Proofs.Layout.Related
import JsonWriter.Proofs.Layout.Parts
import JsonWriter.Proofs.Contents
import JsonWriter.Proofs.Nesting
import JsonWriter.Proofs.Json.Grammar
import JsonWriter.Proofs.Json.Reader
import JsonWriter.Proofs.Json.Places
import JsonWriter.Proofs.Text.Utf8
import JsonWriter.Proofs.Text.Sequences
import JsonWriter.Proofs.Text.Runs
import JsonWriter.Proofs.Text.Escape
import JsonWriter.Proofs.Text.Bodies
import JsonWriter.Proofs.Decimal.Rounding
import JsonWriter.Proofs.Decimal.Shortest
import JsonWriter.Proofs.Decimal.Numerals
import JsonWriter.Proofs.Decimal.Nearest
import JsonWriter.Proofs.Json.Normal
import JsonWriter.Proofs.RoundTrip
import JsonWriter.Proofs.Validity
import JsonWriter.Proofs.Delegation.Reading
import JsonWriter.Proofs.Delegation.Inline
import JsonWriter.Proofs.Delegation.Agreement
import JsonWriter.Proofs.Delegation.Sharing
import JsonWriter.Proofs.Delegation.Rendering
import JsonWriter.Proofs.Session.Ensures
import JsonWriter.Proofs.Session.Hosts
import JsonWriter.Proofs.Session.Within
import JsonWriter.Proofs.Session.Rendering
import JsonWriter.Proofs.Session.Steps
import JsonWriter.Proofs.Session.Generating
import JsonWriter.Proofs.Session.Compositional
import JsonWriter.Proofs.Session.Counted
import JsonWriter.Proofs.Session.Uncounted
import JsonWriter.Proofs.Configuration.Updates
import JsonWriter.Proofs.Configuration.Keys
import JsonWriter.Proofs.Configuration.Insertion
import JsonWriter.Proofs.Configuration.Identity
import JsonWriter.Proofs.Configuration.LastWriter
import JsonWriter.Proofs.Configuration.Sound
import JsonWriter.Proofs.Configuration.Refusal
import JsonWriter.Proofs.Configuration.Depths
import JsonWriter.Proofs.Configuration.Equality
import JsonWriter.Proofs.Configuration.Naming
import JsonWriter.Proofs.Session.Following
import JsonWriter.Proofs.Session.Checked
import JsonWriter.Proofs.Failure
import JsonWriter.Proofs.Output
import JsonWriter.Proofs.Decimal.Fewest
import JsonWriter.Proofs.Success
import JsonWriter.Proofs.Layout.Blanks
import JsonWriter.Proofs.Layout.Lines
import JsonWriter.Proofs.Normalized
import JsonWriter.Proofs.FixedPoint
import JsonWriter.Proofs.SameContent
import JsonWriter.Proofs.Binary
import JsonWriter.Proofs.Session.Issued
import JsonWriter.Proofs.Session.Described
import JsonWriter.Proofs.Configuration.Simple
import JsonWriter.Proofs.Renumbering.Values
import JsonWriter.Proofs.Renumbering.Conversions
import JsonWriter.Proofs.Renumbering.Sessions
import JsonWriter.Proofs.Renumbering.Rendering
import JsonWriter.Proofs.Configuration.Merging
import JsonWriter.Proofs.Layout.Unlimited
import JsonWriter.Proofs.EntryPoints
import JsonWriter.Proofs.Twins.Known
import JsonWriter.Proofs.Twins.Generators
import JsonWriter.Proofs.Twins.Sessions
import JsonWriter.Proofs.Twins.Rendering
import JsonWriter.Proofs.Tagged
import JsonWriter.Proofs.Loop.Turns
import JsonWriter.Proofs.Loop.Depths
import JsonWriter.Proofs.Loop.Handed
import JsonWriter.Proofs.Loop.Endless
import JsonWriter.Proofs.Session.Records
import JsonWriter.Proofs.Session.Activations
import JsonWriter.Proofs.Counting.Snapshots
import JsonWriter.Proofs.Counting.Generation

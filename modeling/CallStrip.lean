import CallStrip.Action
import CallStrip.Command.Basic
import CallStrip.Command.Scope
import CallStrip.Command.Words
import CallStrip.Complaint
import CallStrip.Disk
import CallStrip.Failure
import CallStrip.FileTree.Basic
import CallStrip.FileTree.Files
import CallStrip.FileTree.Walk
import CallStrip.IoError
import CallStrip.Json.Container
import CallStrip.Json.Fault
import CallStrip.Json.Message
import CallStrip.Json.Number
import CallStrip.Json.Quoted
import CallStrip.Json.Reader
import CallStrip.Json.Record
import CallStrip.Json.Skip
import CallStrip.Json.Value
import CallStrip.Main
import CallStrip.Marker
import CallStrip.Number.Binary64
import CallStrip.Number.Shortest
import CallStrip.Path
import CallStrip.Program
import CallStrip.Project
import CallStrip.Proofs.Strip.Judgement
import CallStrip.Proofs.Text.Lines
import CallStrip.Reading
import CallStrip.Report
import CallStrip.Scan
import CallStrip.SealedTree
import CallStrip.Settings.Basic
import CallStrip.Settings.Document
import CallStrip.Settings.File
import CallStrip.Strip
import CallStrip.Style
import CallStrip.Survey
import CallStrip.Target
import CallStrip.Text.Basic
import CallStrip.Text.Blank
import CallStrip.Text.Hidden
import CallStrip.Text.Line
import CallStrip.Text.Utf8
import CallStrip.Text.Visible
import CallStrip.Toml.Bare
import CallStrip.Toml.Item
import CallStrip.Toml.Printer
import CallStrip.Toml.Quoted
import CallStrip.Toml.Reader
import CallStrip.Workspace.Basic
import CallStrip.Workspace.Reader
import CallStrip.Proofs.Strip.Segmentation
import CallStrip.Proofs.Strip.Accounting
import CallStrip.Proofs.Strip.Idempotence
import CallStrip.Proofs.Strip.Locality
import CallStrip.Proofs.Strip.BalancedCall
import CallStrip.Proofs.Strip.Mention
import CallStrip.Proofs.Strip.OpenCall
import CallStrip.Proofs.Text.Utf8
import CallStrip.Proofs.FileTree.Alike
import CallStrip.Proofs.Project.Rewrites
import CallStrip.Proofs.Project.Effect
import CallStrip.Proofs.FileTree.Listing
import CallStrip.Proofs.FileTree.Discovery
import CallStrip.Proofs.Project.Opening
import CallStrip.Proofs.Project.Clean
import CallStrip.Proofs.Toml.Quoted
import CallStrip.Proofs.FileTree.Writing
import CallStrip.Proofs.Settings.Partial
import CallStrip.Proofs.Settings.Saved
import CallStrip.Proofs.Json.Skipping
import CallStrip.Proofs.Json.Written
import CallStrip.Proofs.Json.Fields
import CallStrip.Proofs.Workspace.Accepted
import CallStrip.Proofs.Strip.Concatenation
import CallStrip.Proofs.Strip.Spacing
import CallStrip.Proofs.Project.Abort
import CallStrip.Proofs.Settings.Store
import CallStrip.Proofs.Project.DryRun
import CallStrip.Proofs.Strip.Inclusion
import CallStrip.Proofs.Project.Check
import CallStrip.Proofs.Project.Configured
import CallStrip.Proofs.Strip.Stepwise
import CallStrip.Proofs.Strip.Counters
import CallStrip.Proofs.Settings.Assigned
import CallStrip.Proofs.Strip.Search
import CallStrip.Proofs.Project.Preview
import CallStrip.Proofs.Json.Closing
import CallStrip.Proofs.Strip.WholeCall
import CallStrip.Proofs.Workspace.Cut
import CallStrip.Proofs.Json.Grammar
import CallStrip.Proofs.Json.Likeness
import CallStrip.Proofs.Workspace.OtherKeys
import CallStrip.Proofs.Path.Anchor
import CallStrip.Proofs.Command.Advice
import CallStrip.Proofs.Path.Ancestors
import CallStrip.Proofs.FileTree.Making
import CallStrip.Proofs.Settings.Init
import CallStrip.Proofs.Json.Decimal
import CallStrip.Proofs.Json.Ordered
import CallStrip.Proofs.Json.Meaning
import CallStrip.Proofs.Json.Rendered
import CallStrip.Proofs.Json.Places
import CallStrip.Proofs.Workspace.Places
import CallStrip.Proofs.Workspace.FreeValues

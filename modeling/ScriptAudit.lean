import ScriptAudit.CommandLine
import ScriptAudit.Config
import ScriptAudit.Config.Decode
import ScriptAudit.Config.Load
import ScriptAudit.Consistency
import ScriptAudit.Data.Value
import ScriptAudit.Diagnostic
import ScriptAudit.Document
import ScriptAudit.Feature
import ScriptAudit.Main
import ScriptAudit.Markup.Fault
import ScriptAudit.Markup.Field
import ScriptAudit.Markup.Heading
import ScriptAudit.Markup.Outline
import ScriptAudit.Markup.Placeholder
import ScriptAudit.Markup.Reading
import ScriptAudit.Mode
import ScriptAudit.Path
import ScriptAudit.Program
import ScriptAudit.Proofs.Accounting
import ScriptAudit.Proofs.Ascending
import ScriptAudit.Proofs.Check
import ScriptAudit.Proofs.Consistency
import ScriptAudit.Proofs.Diagnostic
import ScriptAudit.Proofs.Distinct
import ScriptAudit.Proofs.Gather
import ScriptAudit.Proofs.Grade
import ScriptAudit.Proofs.Handing
import ScriptAudit.Proofs.Markup.Anchor
import ScriptAudit.Proofs.Markup.Fault
import ScriptAudit.Proofs.Markup.Field
import ScriptAudit.Proofs.Markup.Grammar
import ScriptAudit.Proofs.Markup.Heading
import ScriptAudit.Proofs.Markup.Outline
import ScriptAudit.Proofs.Markup.Placeholder
import ScriptAudit.Proofs.Path
import ScriptAudit.Proofs.Rule
import ScriptAudit.Proofs.Rule.Conformance
import ScriptAudit.Proofs.Rule.Stock
import ScriptAudit.Proofs.Rule.TestId
import ScriptAudit.Proofs.Run
import ScriptAudit.Proofs.Scan
import ScriptAudit.Proofs.Screenshot
import ScriptAudit.Proofs.Screenshot.Coverage
import ScriptAudit.Proofs.Text.Ascending
import ScriptAudit.Proofs.Text.Line
import ScriptAudit.Proofs.Text.Search
import ScriptAudit.Proofs.Tree
import ScriptAudit.Render.Json
import ScriptAudit.Render.Plain
import ScriptAudit.Render.Table
import ScriptAudit.Report
import ScriptAudit.Report.Sink
import ScriptAudit.Rule
import ScriptAudit.Rule.Stock
import ScriptAudit.Run
import ScriptAudit.Scan
import ScriptAudit.Schedule
import ScriptAudit.Screenshot
import ScriptAudit.Section
import ScriptAudit.Severity
import ScriptAudit.Sorting
import ScriptAudit.Text.Alphanumeric
import ScriptAudit.Text.Ascending
import ScriptAudit.Text.Blank
import ScriptAudit.Text.Cased
import ScriptAudit.Text.Cut
import ScriptAudit.Text.Decimal
import ScriptAudit.Text.Line
import ScriptAudit.Text.Lowercase
import ScriptAudit.Text.Visible
import ScriptAudit.Toml.Moment
import ScriptAudit.Toml.Number
import ScriptAudit.Toml.Quoted
import ScriptAudit.Toml.Reading
import ScriptAudit.Toml.Table
import ScriptAudit.Tree
import ScriptAudit.Tree.Edit
import ScriptAudit.Proofs.Tree.Join
import ScriptAudit.Proofs.Scan.Walk
import ScriptAudit.Proofs.Covered
import ScriptAudit.Proofs.Tree.Plain
import ScriptAudit.Proofs.RootOrder
import ScriptAudit.Proofs.Screenshot.Orphan
import ScriptAudit.Proofs.Path.Enclosing
import ScriptAudit.Proofs.Placement
import ScriptAudit.Proofs.Consistency.Declaration
import ScriptAudit.Proofs.Markup.Report
import ScriptAudit.Proofs.Markup.OpenFence
import ScriptAudit.Markup.Draft
import ScriptAudit.Proofs.Markup.Layout
import ScriptAudit.Proofs.Markup.Draft
import ScriptAudit.Proofs.Rule.Adjust
import ScriptAudit.Proofs.Reconfigured
import ScriptAudit.Proofs.Tree.Without
import ScriptAudit.Proofs.Scan.Without
import ScriptAudit.Proofs.Crash
import ScriptAudit.Proofs.Limiter
import ScriptAudit.Proofs.Markup.BlankLine
import ScriptAudit.Proofs.Markup.HeadingFault
import ScriptAudit.Proofs.Markup.MissingSection
import ScriptAudit.Proofs.Markup.Respacing
import ScriptAudit.Proofs.Markup.ClosedFence
import ScriptAudit.Proofs.Markup.Segment
import ScriptAudit.Proofs.Markup.Step
import ScriptAudit.Proofs.Rule.StepNumber
import ScriptAudit.Proofs.Screenshot.Grammar
import ScriptAudit.Proofs.Consistency.DuplicateId
import ScriptAudit.Proofs.Consistency.Reference
import ScriptAudit.Proofs.Tree.Descendants
import ScriptAudit.Proofs.Scan.Discovery
import ScriptAudit.Proofs.Scan.Partition
import ScriptAudit.Proofs.Report.Arrangement
import ScriptAudit.Proofs.Render.Digest
import ScriptAudit.Proofs.Text.Words
import ScriptAudit.Proofs.Text.Lowercase
import ScriptAudit.Proofs.Rule.Repetition
import ScriptAudit.Proofs.Markup.Glyph
import ScriptAudit.Proofs.Rule.Chain
import ScriptAudit.Proofs.Rule.Role
import ScriptAudit.Proofs.Path.Display
import ScriptAudit.Proofs.Attribution

import StaticStyle.Binary64.Basic
import StaticStyle.Binary64.Decimal
import StaticStyle.Bundle
import StaticStyle.CommandLine.Arguments
import StaticStyle.CommandLine.Build
import StaticStyle.CommandLine.Console
import StaticStyle.CommandLine.Help
import StaticStyle.CommandLine.Load
import StaticStyle.CommandLine.Report
import StaticStyle.CommandLine.Request
import StaticStyle.CommandLine.Run
import StaticStyle.Config.Basic
import StaticStyle.Config.Load
import StaticStyle.Config.Options
import StaticStyle.Defect
import StaticStyle.Diagnostic
import StaticStyle.Digest.Md5
import StaticStyle.Event.Basic
import StaticStyle.Event.Bus
import StaticStyle.Expression.Evaluate
import StaticStyle.Expression.Literal
import StaticStyle.Expression.Node
import StaticStyle.Expression.Parse
import StaticStyle.Expression.Token
import StaticStyle.Fields
import StaticStyle.File.Path
import StaticStyle.File.Tree
import StaticStyle.Json.Canonical
import StaticStyle.Json.Quoted
import StaticStyle.Json.Read
import StaticStyle.Json.Token
import StaticStyle.Main
import StaticStyle.Markup.Attribute
import StaticStyle.Markup.Call
import StaticStyle.Markup.Survey
import StaticStyle.Notice
import StaticStyle.Proofs.Binary64.Notation
import StaticStyle.Proofs.Binary64.Numeral
import StaticStyle.Proofs.Binary64.Rounding
import StaticStyle.Proofs.Bundle
import StaticStyle.Proofs.CommandLine.Agreement
import StaticStyle.Proofs.CommandLine.Building
import StaticStyle.Proofs.CommandLine.Checking
import StaticStyle.Proofs.CommandLine.Work
import StaticStyle.Proofs.Draft.Basic
import StaticStyle.Proofs.Draft.Becoming
import StaticStyle.Proofs.Draft.Clear
import StaticStyle.Proofs.Draft.Editing
import StaticStyle.Proofs.Draft.Rewriting
import StaticStyle.Proofs.Draft.Tracing
import StaticStyle.Proofs.Draft.Turning
import StaticStyle.Proofs.Draft.Validity
import StaticStyle.Proofs.Expression.Canonical
import StaticStyle.Proofs.Expression.Code
import StaticStyle.Proofs.Expression.Literal
import StaticStyle.Proofs.Expression.Location
import StaticStyle.Proofs.Expression.Meaning
import StaticStyle.Proofs.Expression.Numeral
import StaticStyle.Proofs.Expression.Offence
import StaticStyle.Proofs.Expression.Place
import StaticStyle.Proofs.Expression.Printing
import StaticStyle.Proofs.Expression.Rereading
import StaticStyle.Proofs.Expression.Span
import StaticStyle.Proofs.Expression.Spelling
import StaticStyle.Proofs.Expression.Static
import StaticStyle.Proofs.Expression.StringLiteral
import StaticStyle.Proofs.Fields
import StaticStyle.Proofs.File.Path
import StaticStyle.Proofs.File.Tree
import StaticStyle.Proofs.Json.Canonical
import StaticStyle.Proofs.Json.Order
import StaticStyle.Proofs.Json.Quoted
import StaticStyle.Proofs.Json.Reading
import StaticStyle.Proofs.Linking
import StaticStyle.Proofs.Loading
import StaticStyle.Proofs.Markup.Calm
import StaticStyle.Proofs.Markup.Elements
import StaticStyle.Proofs.Markup.Enclosure
import StaticStyle.Proofs.Markup.Ending
import StaticStyle.Proofs.Markup.Filling
import StaticStyle.Proofs.Markup.Form
import StaticStyle.Proofs.Markup.Matching
import StaticStyle.Proofs.Markup.Occurrence
import StaticStyle.Proofs.Markup.Order
import StaticStyle.Proofs.Markup.Progress
import StaticStyle.Proofs.Markup.Reading
import StaticStyle.Proofs.Markup.Span
import StaticStyle.Proofs.Markup.Splice
import StaticStyle.Proofs.Markup.Spot
import StaticStyle.Proofs.Markup.Standing
import StaticStyle.Proofs.Markup.Statement
import StaticStyle.Proofs.Markup.Tag
import StaticStyle.Proofs.Markup.Tree
import StaticStyle.Proofs.Markup.Walk
import StaticStyle.Proofs.Reaction.Moment
import StaticStyle.Proofs.Session.Atomicity
import StaticStyle.Proofs.Session.ClassMap
import StaticStyle.Proofs.Session.Confinement
import StaticStyle.Proofs.Session.Consumption
import StaticStyle.Proofs.Session.Declaration
import StaticStyle.Proofs.Session.Independence
import StaticStyle.Proofs.Session.Judgement
import StaticStyle.Proofs.Session.Listing
import StaticStyle.Proofs.Session.Locality
import StaticStyle.Proofs.Session.Mention
import StaticStyle.Proofs.Session.Naming
import StaticStyle.Proofs.Session.Outcome
import StaticStyle.Proofs.Session.Planning
import StaticStyle.Proofs.Session.Rebuild
import StaticStyle.Proofs.Session.Recording
import StaticStyle.Proofs.Session.Refusal
import StaticStyle.Proofs.Session.Reload
import StaticStyle.Proofs.Session.Replay
import StaticStyle.Proofs.Session.Reporting
import StaticStyle.Proofs.Session.Retention
import StaticStyle.Proofs.Session.Rewriting
import StaticStyle.Proofs.Session.Run
import StaticStyle.Proofs.Session.Tracking
import StaticStyle.Proofs.Sorting
import StaticStyle.Proofs.Source.Application
import StaticStyle.Proofs.Source.Balance
import StaticStyle.Proofs.Source.Edit
import StaticStyle.Proofs.Source.Line
import StaticStyle.Proofs.Source.Permutation
import StaticStyle.Proofs.Source.Position
import StaticStyle.Proofs.Source.Replacement
import StaticStyle.Proofs.Source.Turn
import StaticStyle.Proofs.Style.Acceptance
import StaticStyle.Proofs.Style.Cascade
import StaticStyle.Proofs.Style.Combination
import StaticStyle.Proofs.Style.Edge
import StaticStyle.Proofs.Style.Figure
import StaticStyle.Proofs.Style.Finding
import StaticStyle.Proofs.Style.KeyOrder
import StaticStyle.Proofs.Style.Nesting
import StaticStyle.Proofs.Style.Number
import StaticStyle.Proofs.Style.ReferencePath
import StaticStyle.Proofs.Style.Scope
import StaticStyle.Proofs.Style.SelectorList
import StaticStyle.Proofs.Style.Sequence
import StaticStyle.Proofs.Style.Shape
import StaticStyle.Proofs.Style.Shorthand
import StaticStyle.Proofs.Style.Warning
import StaticStyle.Proofs.Text.Join
import StaticStyle.Proofs.Text.Leading
import StaticStyle.Proofs.Text.Order
import StaticStyle.Proofs.Text.Ranges
import StaticStyle.Proofs.Text.Strip
import StaticStyle.Proofs.Text.Surrogate
import StaticStyle.Proofs.Theme.Consistency
import StaticStyle.Proofs.Theme.Delivery
import StaticStyle.Proofs.Theme.Naming
import StaticStyle.Proofs.Theme.Overlay
import StaticStyle.Proofs.Theme.Reference
import StaticStyle.Proofs.Usage
import StaticStyle.Reaction.Agenda
import StaticStyle.Reaction.Script
import StaticStyle.Registry
import StaticStyle.Session.Basic
import StaticStyle.Session.Plan
import StaticStyle.Source.Bracket
import StaticStyle.Source.Edit
import StaticStyle.Source.Enclosure
import StaticStyle.Source.Position
import StaticStyle.Style.Compile
import StaticStyle.Style.Identity
import StaticStyle.Style.Property
import StaticStyle.Style.Rule
import StaticStyle.Style.Selector
import StaticStyle.Style.ThemeReference
import StaticStyle.Text.Basic
import StaticStyle.Text.Blank
import StaticStyle.Text.Digit
import StaticStyle.Text.Printable
import StaticStyle.Text.Quoted
import StaticStyle.Text.Ranges
import StaticStyle.Text.Surrogate
import StaticStyle.Text.Utf8
import StaticStyle.Text.Word
import StaticStyle.Theme.Flatten
import StaticStyle.Theme.Load
import StaticStyle.Theme.Merge
import StaticStyle.Theme.Store
import StaticStyle.Toml.Document
import StaticStyle.Toml.Scalar
import StaticStyle.Toml.Statement
import StaticStyle.Toml.Table
import StaticStyle.Usage
import StaticStyle.Value.Basic
import StaticStyle.Value.Display
import StaticStyle.Value.Numeral
import StaticStyle.Value.Stamp

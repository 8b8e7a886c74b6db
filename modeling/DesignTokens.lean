import DesignTokens.Build.Pipeline
import DesignTokens.Build.Report
import DesignTokens.BuildError
import DesignTokens.Calendar
import DesignTokens.Cascade
import DesignTokens.Cli.Arguments
import DesignTokens.Cli.Command
import DesignTokens.Cli.Reach
import DesignTokens.Config.Basic
import DesignTokens.Config.Field
import DesignTokens.Config.File
import DesignTokens.Config.Metadata
import DesignTokens.Config.Problem
import DesignTokens.Css.Rule
import DesignTokens.Css.Sheet
import DesignTokens.Css.Value
import DesignTokens.Datum
import DesignTokens.Decimal.Binary64
import DesignTokens.Decimal.Parse
import DesignTokens.Decimal.Shortest
import DesignTokens.Digest.Sha256
import DesignTokens.Document
import DesignTokens.FileTree.Basic
import DesignTokens.FileTree.Difference
import DesignTokens.FileTree.Glob
import DesignTokens.FileTree.Path
import DesignTokens.Identifier
import DesignTokens.Json.Basic
import DesignTokens.Json.Printer
import DesignTokens.Json.Reader
import DesignTokens.Log
import DesignTokens.Main
import DesignTokens.OrderedMap
import DesignTokens.Output
import DesignTokens.Proofs.Build.AllOrNone
import DesignTokens.Proofs.Build.ByMode
import DesignTokens.Proofs.Build.DryRun
import DesignTokens.Proofs.Build.Findings
import DesignTokens.Proofs.Build.History
import DesignTokens.Proofs.Build.Reuse
import DesignTokens.Proofs.Build.Sheets
import DesignTokens.Proofs.Build.Trees
import DesignTokens.Proofs.Canonical
import DesignTokens.Proofs.Cascade
import DesignTokens.Proofs.Config.Valid
import DesignTokens.Proofs.Css.Rule
import DesignTokens.Proofs.Css.Sheet
import DesignTokens.Proofs.Decimal.Interval
import DesignTokens.Proofs.Decimal.Layout
import DesignTokens.Proofs.Decimal.Shortest
import DesignTokens.Proofs.Document
import DesignTokens.Proofs.Document.Walk
import DesignTokens.Proofs.Document.Flatten
import DesignTokens.Proofs.FileTree.Names
import DesignTokens.Proofs.FileTree.Operations
import DesignTokens.Proofs.Identifier.Words
import DesignTokens.Proofs.Identifier
import DesignTokens.Proofs.Json.Printer
import DesignTokens.Proofs.Json.Strings
import DesignTokens.Proofs.Lists
import DesignTokens.Proofs.OrderedMap
import DesignTokens.Proofs.Output
import DesignTokens.Proofs.Resolution.Cache
import DesignTokens.Proofs.Resolution.Chain
import DesignTokens.Proofs.Resolution.Pass
import DesignTokens.Proofs.Resolution.Values
import DesignTokens.Proofs.Store
import DesignTokens.Proofs.Store.Reuse
import DesignTokens.Proofs.Text.Surrogates
import DesignTokens.Proofs.Text.Words
import DesignTokens.Resolution
import DesignTokens.Store
import DesignTokens.Text.Blank
import DesignTokens.Text.Digit
import DesignTokens.Text.Printable
import DesignTokens.Text.Quoted
import DesignTokens.Token.Basic
import DesignTokens.Token.Checked
import DesignTokens.Token.Kind
import DesignTokens.Token.Scalar
import DesignTokens.Token.TokenPath
import DesignTokens.Token.Value
import DesignTokens.Tools
import DesignTokens.Watch.Coordination
import DesignTokens.Watch.Poller
import DesignTokens.Watch.Watcher
import DesignTokens.Yaml.Cursor
import DesignTokens.Yaml.Fault
import DesignTokens.Yaml.Node
import DesignTokens.Yaml.Reader
import DesignTokens.Yaml.Scalar
import DesignTokens.Yaml.ScalarText
import DesignTokens.Yaml.Token
import DesignTokens.Proofs.Build.Declarations
import DesignTokens.Proofs.Build.Planned
import DesignTokens.Proofs.Build.ModeIsolation
import DesignTokens.Proofs.Build.ModeSelection
import DesignTokens.Proofs.Watch.Coordination
import DesignTokens.Proofs.Build.Placement
import DesignTokens.Proofs.Build.Breakdown
import DesignTokens.Proofs.Build.Stages
import DesignTokens.Proofs.Watch.Calls
import DesignTokens.Proofs.Config.Breakdown
import DesignTokens.Proofs.Watch.Rebuild
import DesignTokens.Proofs.Resolution.Ends
import DesignTokens.Proofs.Resolution.Fingerprint
import DesignTokens.Proofs.Resolution.Yields
import DesignTokens.Proofs.FileTree.Places
import DesignTokens.Proofs.FileTree.Below
import DesignTokens.Proofs.Output.Exact
import DesignTokens.Proofs.Dotted
import DesignTokens.Proofs.Resolution.LookUp
import DesignTokens.Proofs.Build.LookUps
import DesignTokens.Proofs.Resolution.Repeat
import DesignTokens.Proofs.Build.Replan
import DesignTokens.Proofs.Css.Lines
import DesignTokens.Proofs.Css.Targets
import DesignTokens.Proofs.Output.Again
import DesignTokens.Proofs.Build.Again
import DesignTokens.Proofs.Cascade.Coverage
import DesignTokens.Proofs.Cascade.Layers
import DesignTokens.Proofs.Resolution.Trail
import DesignTokens.Proofs.Resolution.Causes
import DesignTokens.Proofs.Resolution.Genuine
import DesignTokens.Proofs.Resolution.Reports
import DesignTokens.Proofs.Resolution.Types
import DesignTokens.Proofs.Document.Scope
import DesignTokens.Proofs.Reference
import DesignTokens.Proofs.Build.Addresses
import DesignTokens.Proofs.Resolution.Counts
import DesignTokens.Proofs.Store.Failures
import DesignTokens.Proofs.Build.Counters
import DesignTokens.Proofs.Build.Counts
import DesignTokens.Proofs.Css.Blocks
import DesignTokens.Proofs.Css.ReadBack
import DesignTokens.Proofs.Css.Enclosed
import DesignTokens.Proofs.Css.Lexical
import DesignTokens.Proofs.Build.Statistics
import DesignTokens.Proofs.Watch.Polls
import DesignTokens.Proofs.Watch.Sources
import DesignTokens.Proofs.Build.Confined
import DesignTokens.Proofs.Config.Metadata
import DesignTokens.Proofs.Resolution.Accounting
import DesignTokens.Proofs.Json.Written
import DesignTokens.Proofs.Json.Reading
import DesignTokens.Proofs.Json.Digits
import DesignTokens.Proofs.Store.RepeatedKeys
import DesignTokens.Proofs.Resolution.Diagnosis

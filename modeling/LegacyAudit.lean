import LegacyAudit.Analyzer.Basic
import LegacyAudit.Analyzer.Chain
import LegacyAudit.Analyzer.CloudReadiness
import LegacyAudit.Analyzer.CodeScanner
import LegacyAudit.Analyzer.DependencyMapper
import LegacyAudit.CommandLine.Arguments
import LegacyAudit.CommandLine.Command
import LegacyAudit.CommandLine.Complaint
import LegacyAudit.CommandLine.Run
import LegacyAudit.CommandLine.Snapshot
import LegacyAudit.Config
import LegacyAudit.Config.Json
import LegacyAudit.Config.Paths
import LegacyAudit.Config.Validation
import LegacyAudit.Config.Yaml
import LegacyAudit.Config.YamlText
import LegacyAudit.FeatureRecord
import LegacyAudit.FeatureRecord.Json
import LegacyAudit.FileTree.Basic
import LegacyAudit.FileTree.Collect
import LegacyAudit.FileTree.Resolve
import LegacyAudit.FileTree.Walk
import LegacyAudit.Glob.Basic
import LegacyAudit.Glob.Reader
import LegacyAudit.Grammar
import LegacyAudit.Grammar.Tables
import LegacyAudit.Job.Aggregate
import LegacyAudit.Job.Basic
import LegacyAudit.Job.Error
import LegacyAudit.Job.Faults
import LegacyAudit.Job.FileAnalysis
import LegacyAudit.Job.Id
import LegacyAudit.Job.Json
import LegacyAudit.Job.Machine
import LegacyAudit.Job.Run
import LegacyAudit.Job.Status
import LegacyAudit.Job.Storage
import LegacyAudit.Job.Store
import LegacyAudit.Job.Summary
import LegacyAudit.Json.Basic
import LegacyAudit.Json.Decode
import LegacyAudit.Json.Reader
import LegacyAudit.Json.Writer
import LegacyAudit.Language
import LegacyAudit.Main
import LegacyAudit.Path
import LegacyAudit.Proofs.Analysis.Lines
import LegacyAudit.Proofs.Config.RoundTrip
import LegacyAudit.Proofs.Files.Admission
import LegacyAudit.Proofs.Job.Acceptance
import LegacyAudit.Proofs.Job.Causes
import LegacyAudit.Proofs.Job.Completion
import LegacyAudit.Proofs.Job.Consistency
import LegacyAudit.Proofs.Job.Exchanges
import LegacyAudit.Proofs.Job.FailureMessages
import LegacyAudit.Proofs.Job.Interpolation
import LegacyAudit.Proofs.Job.Isolation
import LegacyAudit.Proofs.Job.LaterReads
import LegacyAudit.Proofs.Job.Milestones
import LegacyAudit.Proofs.Job.Plan
import LegacyAudit.Proofs.Job.Refusal
import LegacyAudit.Proofs.Job.Requests
import LegacyAudit.Proofs.Job.Results
import LegacyAudit.Proofs.Job.Step
import LegacyAudit.Proofs.Job.Steps
import LegacyAudit.Proofs.Job.Tasks
import LegacyAudit.Proofs.Job.Undated
import LegacyAudit.Proofs.Job.Visibility
import LegacyAudit.Proofs.Text.Decimal
import LegacyAudit.Proofs.Text.Utf8
import LegacyAudit.Proofs.Yaml.Documents
import LegacyAudit.Proofs.Yaml.Events
import LegacyAudit.Proofs.Yaml.Layout
import LegacyAudit.Proofs.Yaml.Lexemes
import LegacyAudit.Proofs.Yaml.Literal
import LegacyAudit.Proofs.Yaml.Moves
import LegacyAudit.Proofs.Yaml.Nodes
import LegacyAudit.Proofs.Yaml.Plain
import LegacyAudit.Proofs.Yaml.Quoted
import LegacyAudit.Proofs.Yaml.Tokens
import LegacyAudit.Proofs.Yaml.Values
import LegacyAudit.Report.Basic
import LegacyAudit.Report.Pretty
import LegacyAudit.Result.Attached
import LegacyAudit.Result.Draft
import LegacyAudit.Result.Json
import LegacyAudit.Result.Kinds
import LegacyAudit.Syntax.Complexity
import LegacyAudit.Syntax.Cursor
import LegacyAudit.Syntax.Extraction
import LegacyAudit.Syntax.Rules
import LegacyAudit.Syntax.Tree
import LegacyAudit.Text.Binary64
import LegacyAudit.Text.Blank
import LegacyAudit.Text.CaseContext
import LegacyAudit.Text.Decimal
import LegacyAudit.Text.Hidden
import LegacyAudit.Text.Ink
import LegacyAudit.Text.Lower
import LegacyAudit.Text.LowerTable
import LegacyAudit.Text.Quoted
import LegacyAudit.Text.Search
import LegacyAudit.Text.Split
import LegacyAudit.Text.Utf8
import LegacyAudit.Timestamp
import LegacyAudit.Timestamp.Reader
import LegacyAudit.Yaml.Character
import LegacyAudit.Yaml.Cursor
import LegacyAudit.Yaml.Decode
import LegacyAudit.Yaml.Event
import LegacyAudit.Yaml.Fault
import LegacyAudit.Yaml.Node
import LegacyAudit.Yaml.Scalar.Meaning
import LegacyAudit.Yaml.Scalar.Writer
import LegacyAudit.Yaml.Token.Basic
import LegacyAudit.Yaml.Token.Name
import LegacyAudit.Yaml.Token.Reader
import LegacyAudit.Yaml.Token.Scalar
import LegacyAudit.Yaml.Writer
import LegacyAudit.Proofs.Syntax.TopLevel
import LegacyAudit.Proofs.Json.Text
import LegacyAudit.Proofs.Report.Legibility
import LegacyAudit.Proofs.Report.Instants
import LegacyAudit.Proofs.Analysis.Signals
import LegacyAudit.Proofs.Analysis.Unparsed
import LegacyAudit.Proofs.Analysis.Records
import LegacyAudit.Proofs.Files.Relocation
import LegacyAudit.Proofs.Files.Languages
import LegacyAudit.Proofs.Files.ProjectNames
import LegacyAudit.Proofs.Config.Overlay
import LegacyAudit.Proofs.Analysis.Canonical
import LegacyAudit.Proofs.Report.Locations

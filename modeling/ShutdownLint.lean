import ShutdownLint.BuildFile
import ShutdownLint.Calendar
import ShutdownLint.Check
import ShutdownLint.CommandLine.Arguments
import ShutdownLint.CommandLine.Run
import ShutdownLint.Decimal.Binary64
import ShutdownLint.Decimal.Digits
import ShutdownLint.Files.Artifact
import ShutdownLint.Files.Path
import ShutdownLint.Files.System
import ShutdownLint.Files.Tree
import ShutdownLint.Finding
import ShutdownLint.Json.Basic
import ShutdownLint.Json.Parser
import ShutdownLint.Json.Printer
import ShutdownLint.Json.Quoted
import ShutdownLint.Json.Token
import ShutdownLint.Main
import ShutdownLint.Report.Basic
import ShutdownLint.Report.Encoding
import ShutdownLint.Report.Format
import ShutdownLint.Report.Junit
import ShutdownLint.Report.Output
import ShutdownLint.Report.Sarif
import ShutdownLint.Report.Text
import ShutdownLint.Rule.Basic
import ShutdownLint.Rule.Explanation
import ShutdownLint.Settings.Basic
import ShutdownLint.Settings.Selection
import ShutdownLint.Text.Hexadecimal
import ShutdownLint.Text.Lines
import ShutdownLint.Text.Pieces
import ShutdownLint.Text.Utf8
import ShutdownLint.Text.WhiteSpace
import ShutdownLint.Timestamp
import ShutdownLint.Toml.Parser
import ShutdownLint.Toml.Scalar
import ShutdownLint.Toml.Token
import ShutdownLint.Toml.Value
import ShutdownLint.Workload
import ShutdownLint.Yaml.Directives
import ShutdownLint.Yaml.Lexer
import ShutdownLint.Yaml.Merge
import ShutdownLint.Yaml.Node
import ShutdownLint.Yaml.NodeValue
import ShutdownLint.Yaml.Number
import ShutdownLint.Yaml.Property
import ShutdownLint.Yaml.ScalarText
import ShutdownLint.Yaml.Segment
import ShutdownLint.Yaml.Stream
import ShutdownLint.Yaml.Text
import ShutdownLint.Yaml.Token
import ShutdownLint.Yaml.Value
import ShutdownLint.Proofs.BuildFile.ShellForm
import ShutdownLint.Proofs.BuildFile.LineFindings
import ShutdownLint.Proofs.Check.Composition
import ShutdownLint.Proofs.Check.Severity
import ShutdownLint.Proofs.CommandLine.ExitStatus
import ShutdownLint.Proofs.Pointwise
import ShutdownLint.Proofs.Workload.DocumentBlocks
import ShutdownLint.Proofs.Workload.MergeChains
import ShutdownLint.Proofs.Files.Walk
import ShutdownLint.Proofs.Text.ByteOrder
import ShutdownLint.Proofs.Files.Discovery
import ShutdownLint.Proofs.Decimal.Digits
import ShutdownLint.Proofs.Json.Lexing
import ShutdownLint.Proofs.Json.ReadBack
import ShutdownLint.Proofs.Report.ReadBack
import ShutdownLint.Proofs.Yaml.BlockLines
import ShutdownLint.Proofs.Yaml.LineTokens
import ShutdownLint.Proofs.Yaml.LineStream
import ShutdownLint.Proofs.Text.Replace
import ShutdownLint.Proofs.Yaml.WordValue
import ShutdownLint.Proofs.Workload.BarePodText
import ShutdownLint.Proofs.Workload.BarePods
import ShutdownLint.Proofs.CommandLine.Effects
import ShutdownLint.Proofs.Report.JunitReadBack
import ShutdownLint.Proofs.Report.JunitCharacters
import ShutdownLint.Proofs.Report.SarifReadBack
import ShutdownLint.Proofs.Workload.JoinedManifests
import ShutdownLint.Proofs.Settings.Overrides
import ShutdownLint.Proofs.Check.Disabling
import ShutdownLint.Proofs.Report.Agreement
import ShutdownLint.Proofs.Report.TerminalLines
import ShutdownLint.Proofs.KeyOrder
import ShutdownLint.Proofs.Settings.Precedence
import ShutdownLint.Proofs.Yaml.WithoutTags
import ShutdownLint.Proofs.Yaml.Equality
import ShutdownLint.Proofs.Yaml.MergePaths
import ShutdownLint.Proofs.Workload.LocalTags
import ShutdownLint.Proofs.Workload.MergePrecedence
import ShutdownLint.Proofs.Files.Overwriting
import ShutdownLint.Proofs.CommandLine.Repetition
import ShutdownLint.Proofs.BuildFile.LineEdits
import ShutdownLint.Proofs.Text.ByteLines
import ShutdownLint.Proofs.Check.RawLines
import ShutdownLint.Proofs.Yaml.MergeEntries
import ShutdownLint.Proofs.Yaml.FirstFailure
import ShutdownLint.Proofs.Yaml.EntryEdits
import ShutdownLint.Proofs.Workload.InspectedFields
import ShutdownLint.Proofs.Text.LetterCase
import ShutdownLint.Proofs.Rule.Wording
import ShutdownLint.Proofs.Rule.EntryPoints
import ShutdownLint.Proofs.Report.Markup
import ShutdownLint.Proofs.Report.JunitEscaping

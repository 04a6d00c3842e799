import PermissionTypes.Text.Bytes
import PermissionTypes.Text.Split
import PermissionTypes.Text.Blank
import PermissionTypes.Text.Quoted
import PermissionTypes.Text.Position
import PermissionTypes.Diagnostic
import PermissionTypes.Schema.Tree
import PermissionTypes.Schema.Cursor
import PermissionTypes.Schema.Parser
import PermissionTypes.Schema.Trivia
import PermissionTypes.Schema.Word
import PermissionTypes.Schema.Expression
import PermissionTypes.Schema.Caveat
import PermissionTypes.Schema.Agreement
import PermissionTypes.Schema.Definition
import PermissionTypes.Schema.Text
import PermissionTypes.ObjectModel
import PermissionTypes.Schema.NameRule
import PermissionTypes.Schema.Violation
import PermissionTypes.Schema.Declarations
import PermissionTypes.Schema.References
import PermissionTypes.Schema.Compilation
import PermissionTypes.PermissionMap
import PermissionTypes.ClientModule
import PermissionTypes.Files.Fault
import PermissionTypes.Files.Path
import PermissionTypes.Files.System
import PermissionTypes.Source.ResourceName
import PermissionTypes.Source.Failure
import PermissionTypes.Source.Memory
import PermissionTypes.Source.Directory
import PermissionTypes.Generation
import PermissionTypes.Number.Digits
import PermissionTypes.Number.Binary64
import PermissionTypes.CommandLine.Arguments
import PermissionTypes.CommandLine.SettingValue
import PermissionTypes.CommandLine.SettingPath
import PermissionTypes.CommandLine.SettingTree
import PermissionTypes.CommandLine.Settings
import PermissionTypes.CommandLine.LogFilter
import PermissionTypes.CommandLine.Session
import PermissionTypes.CommandLine.Workspace
import PermissionTypes.CommandLine.Usage
import PermissionTypes.Main
import PermissionTypes.Proofs.Text.Positions
import PermissionTypes.Proofs.Schema.Spelling
import PermissionTypes.Proofs.Schema.Grammar
import PermissionTypes.Proofs.Schema.GrammarRules
import PermissionTypes.Proofs.Schema.Running
import PermissionTypes.Proofs.Schema.TriviaReading
import PermissionTypes.Proofs.Schema.WordReading
import PermissionTypes.Proofs.Schema.Lookahead
import PermissionTypes.Proofs.Schema.ExpressionReading
import PermissionTypes.Proofs.Schema.ListReading
import PermissionTypes.Proofs.Schema.BodyReading
import PermissionTypes.Proofs.Schema.CaveatReading
import PermissionTypes.Proofs.Schema.DefinitionReading
import PermissionTypes.Proofs.Schema.SchemaReading
import PermissionTypes.Proofs.Schema.WellFormedness
import PermissionTypes.Proofs.Schema.Verdicts
import PermissionTypes.Proofs.Schema.DeclarationChecks
import PermissionTypes.Proofs.Schema.ReferenceChecks
import PermissionTypes.Proofs.Schema.Compiled
import PermissionTypes.Proofs.Schema.Uses
import PermissionTypes.Proofs.Schema.Walks
import PermissionTypes.Proofs.Schema.Violations
import PermissionTypes.Proofs.Schema.FirstViolation
import PermissionTypes.Proofs.Schema.Extension
import PermissionTypes.Proofs.Schema.Reordering
import PermissionTypes.Proofs.Schema.Moving
import PermissionTypes.Proofs.Schema.MovedSpelling
import PermissionTypes.Proofs.Schema.Concatenation
import PermissionTypes.Proofs.Schema.Failing
import PermissionTypes.Proofs.Schema.Beginnings
import PermissionTypes.Proofs.Schema.Completable
import PermissionTypes.Proofs.Schema.ExpressionBeginnings
import PermissionTypes.Proofs.Schema.DefinitionBeginnings
import PermissionTypes.Proofs.Schema.CaveatBeginnings
import PermissionTypes.Proofs.Schema.CorrectPrefix
import PermissionTypes.Proofs.Schema.FailureReasons
import PermissionTypes.Proofs.Schema.AcceptedBeginnings
import PermissionTypes.Proofs.Schema.TreeNames
import PermissionTypes.Proofs.Schema.NameSpans
import PermissionTypes.Proofs.Schema.ViolationNames
import PermissionTypes.Proofs.Schema.Rejections
import PermissionTypes.Proofs.Schema.BodyEnding
import PermissionTypes.Proofs.Schema.Precedence
import PermissionTypes.Proofs.PermissionMapReading
import PermissionTypes.Proofs.GeneratedModule
import PermissionTypes.Proofs.EntryLines
import PermissionTypes.Proofs.ModuleLines
import PermissionTypes.Proofs.Files.Walking
import PermissionTypes.Proofs.Files.PathsBelow
import PermissionTypes.Proofs.Files.Writing
import PermissionTypes.Proofs.Source.DirectoryReading
import PermissionTypes.Proofs.Source.SourcesAgree
import PermissionTypes.Proofs.Source.NamesBelow
import PermissionTypes.Proofs.CommandLine.SessionEndings
import PermissionTypes.Proofs.CommandLine.RepeatedRuns
import PermissionTypes.Proofs.Schema.SkippedTrivia
import PermissionTypes.Proofs.Schema.TypeNames
import PermissionTypes.Proofs.VerbatimNames

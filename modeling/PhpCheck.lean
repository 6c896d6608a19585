import PhpCheck.Analysis.Assignment
import PhpCheck.Analysis.Checks
import PhpCheck.Analysis.Inference
import PhpCheck.Analysis.Invocation
import PhpCheck.Analysis.Run
import PhpCheck.Analysis.Session
import PhpCheck.Analysis.Walk
import PhpCheck.Command.Disk
import PhpCheck.Command.Options
import PhpCheck.Command.Run
import PhpCheck.Context
import PhpCheck.Declaration.Collect
import PhpCheck.Diagnostic.Basic
import PhpCheck.Diagnostic.Finding
import PhpCheck.Grouping
import PhpCheck.Json.Basic
import PhpCheck.Json.Reader
import PhpCheck.Json.Record
import PhpCheck.Json.Writer
import PhpCheck.Main
import PhpCheck.Node.Basic
import PhpCheck.Node.Document
import PhpCheck.Numeral.Shortest
import PhpCheck.Path
import PhpCheck.Report
import PhpCheck.Scope
import PhpCheck.Settings.Basic
import PhpCheck.Settings.Toml
import PhpCheck.Site
import PhpCheck.Sources
import PhpCheck.Symbol.Callable
import PhpCheck.Symbol.Class
import PhpCheck.SymbolTable.Basic
import PhpCheck.SymbolTable.Builtin
import PhpCheck.SymbolTable.Edit
import PhpCheck.SymbolTable.Lineage
import PhpCheck.Table
import PhpCheck.Text.Blank
import PhpCheck.Text.Case
import PhpCheck.Text.Split
import PhpCheck.Ty.Basic
import PhpCheck.TypeSet.Basic
import PhpCheck.TypeSet.Declaration
import PhpCheck.Typing.Constant
import PhpCheck.Typing.Infer
import PhpCheck.Typing.Lookup
import PhpCheck.Proofs.Names
import PhpCheck.Proofs.Inheritance
import PhpCheck.Proofs.TableGrowth
import PhpCheck.Proofs.Actions
import PhpCheck.Proofs.Inference
import PhpCheck.Proofs.Parts
import PhpCheck.Proofs.ScopeGrowth
import PhpCheck.Proofs.Steps
import PhpCheck.Proofs.SymbolEdits
import PhpCheck.Proofs.ContextGrowth
import PhpCheck.Proofs.Route
import PhpCheck.Proofs.Traversal
import PhpCheck.Proofs.Collection
import PhpCheck.Proofs.Provenance
import PhpCheck.Proofs.Runs
import PhpCheck.Proofs.Conduct
import PhpCheck.Proofs.ReturnTypes
import PhpCheck.Proofs.Statements
import PhpCheck.Proofs.Restoration
import PhpCheck.Proofs.DeclaredSignature
import PhpCheck.Proofs.Containment
import PhpCheck.Proofs.Termination
import PhpCheck.Proofs.Repetition
import PhpCheck.Proofs.Reentry
import PhpCheck.Proofs.Arrivals
import PhpCheck.Proofs.NoOps
import PhpCheck.Proofs.DeclaredProgram
import PhpCheck.Proofs.Mirror
import PhpCheck.Proofs.GroupingChecks
import PhpCheck.Proofs.TypeText
import PhpCheck.Proofs.DocumentRoundTrip
import PhpCheck.Proofs.Registration
import PhpCheck.Proofs.Identities
import PhpCheck.Proofs.Entries
import PhpCheck.Proofs.Resolution
import PhpCheck.Proofs.LogGrowth
import PhpCheck.Proofs.TypingReads
import PhpCheck.Proofs.ReferenceFlow
import PhpCheck.Proofs.ArgumentIndexing
import PhpCheck.Proofs.AssignableTargets
import PhpCheck.Proofs.TypeGrammar
import PhpCheck.Proofs.PropertyHolders
import PhpCheck.Proofs.ReadBack
import PhpCheck.Proofs.ReturnOrder
import PhpCheck.Proofs.FirstDeclarations
import PhpCheck.Proofs.FailedLookups
import PhpCheck.Proofs.RiskCoverage
import PhpCheck.Proofs.ReferencePasses
import PhpCheck.Proofs.Casts
import PhpCheck.Proofs.OwnClass
import PhpCheck.Proofs.Searches
import PhpCheck.Proofs.OperatorReports
import PhpCheck.Proofs.ByteOrder
import PhpCheck.Proofs.CanonicalSets

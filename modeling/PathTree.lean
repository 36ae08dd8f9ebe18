import PathTree.CommandLine.Command
import PathTree.CommandLine.Duration
import PathTree.CommandLine.Flags
import PathTree.CommandLine.Run
import PathTree.Constant.Eval
import PathTree.Constant.Numeral
import PathTree.Constant.Value
import PathTree.Decimal.Layout
import PathTree.Decimal.Shortest
import PathTree.Digest
import PathTree.Directive
import PathTree.Engine.Basic
import PathTree.Engine.Paths
import PathTree.Fault
import PathTree.Files.Path
import PathTree.Files.Tree
import PathTree.Log
import PathTree.Main
import PathTree.Memory
import PathTree.Outcome
import PathTree.Paths.Canonical
import PathTree.Paths.Tree
import PathTree.Paths.Walk
import PathTree.Paths.Weight
import PathTree.Proofs.ArmPaths
import PathTree.Proofs.BoundedSearch
import PathTree.Proofs.Candidates
import PathTree.Proofs.Canonical
import PathTree.Proofs.CasePrefixes
import PathTree.Proofs.Cases
import PathTree.Proofs.ClosedMemory
import PathTree.Proofs.Combinations
import PathTree.Proofs.Conditions
import PathTree.Proofs.Environment
import PathTree.Proofs.Execution
import PathTree.Proofs.Idempotence
import PathTree.Proofs.Independence
import PathTree.Proofs.Literals
import PathTree.Proofs.NormalForm
import PathTree.Proofs.OverlappingCalls
import PathTree.Proofs.PathConditions
import PathTree.Proofs.Pruning
import PathTree.Proofs.Queries
import PathTree.Proofs.Record
import PathTree.Proofs.RecordedInputs
import PathTree.Proofs.Replay
import PathTree.Proofs.SearchSpace
import PathTree.Proofs.Termination
import PathTree.Proofs.VariableKeys
import PathTree.Report.Json
import PathTree.Report.Text
import PathTree.Settings.Basic
import PathTree.Settings.Document
import PathTree.Settings.Reader
import PathTree.Settings.Scalar
import PathTree.Settings.Writer
import PathTree.Solver.Bounded
import PathTree.Solver.Env
import PathTree.Solver.Memo
import PathTree.Solver.Query
import PathTree.Solver.Variables
import PathTree.Source.Ast
import PathTree.Source.Emit
import PathTree.Source.Layout
import PathTree.Source.Lexed
import PathTree.Source.Lexeme
import PathTree.Source.Lower
import PathTree.Source.Parser.Basic
import PathTree.Source.Parser.Exprs
import PathTree.Source.Parser.File
import PathTree.Source.Parser.Stmts
import PathTree.Source.Parser.Types
import PathTree.Source.Splice
import PathTree.Source.Token
import PathTree.Source.TypeText
import PathTree.Store
import PathTree.Syntax.Expr
import PathTree.Syntax.Render
import PathTree.Syntax.Stmt
import PathTree.Table
import PathTree.Text.Blank
import PathTree.Text.CharClass
import PathTree.Text.Integer
import PathTree.Text.Quoted
import PathTree.Text.Utf8
import PathTree.Types
import PathTree.Watch
import PathTree.Proofs.Lowering
import PathTree.Proofs.BlockDeclarations
import PathTree.Proofs.FlatNamespace
import PathTree.Proofs.FreeNames
import PathTree.Proofs.Printable
import PathTree.Proofs.PrintedSource
import PathTree.Proofs.Lexemes
import PathTree.Proofs.Gists
import PathTree.Proofs.Readings
import PathTree.Proofs.UnambiguousTexts
import PathTree.Proofs.Waiting
import PathTree.Proofs.QueryVariables
import PathTree.Proofs.Lockstep
import PathTree.Proofs.RunsInStep
import PathTree.Proofs.StoredResults
import PathTree.Proofs.Resumption
import PathTree.Proofs.Cancellation
import PathTree.Proofs.Salts
import PathTree.Proofs.SavedRecords
import PathTree.Proofs.SharedStore
import PathTree.Proofs.CleanPaths
import PathTree.Proofs.CompleteSearch
import PathTree.Proofs.FileTrees
import PathTree.Proofs.OutputFiles
import PathTree.Proofs.SourceFiles
import PathTree.Proofs.StoreHandles
import PathTree.Proofs.WorkerPool
import PathTree.Proofs.Occurrences
import PathTree.Proofs.SimplestFirst
import PathTree.Proofs.HandledFaults
import PathTree.Proofs.Enumeration
import PathTree.Proofs.DeclaredTypes
import PathTree.Proofs.Folding
import PathTree.Proofs.Refusals
import PathTree.Proofs.DirectiveSettings
import PathTree.Proofs.SignedTexts
import PathTree.Proofs.DoubledSigns

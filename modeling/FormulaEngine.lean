import FormulaEngine.Cache.Script
import FormulaEngine.CommandLine
import FormulaEngine.Engine.Description
import FormulaEngine.Engine.Session
import FormulaEngine.Main
import FormulaEngine.Proofs.Assembly.Balance
import FormulaEngine.Proofs.Assembly.Blame
import FormulaEngine.Proofs.Assembly.Brackets
import FormulaEngine.Proofs.Assembly.Climbing
import FormulaEngine.Proofs.Assembly.Conservation
import FormulaEngine.Proofs.Assembly.Counts
import FormulaEngine.Proofs.Assembly.Grammar
import FormulaEngine.Proofs.Assembly.InStep
import FormulaEngine.Proofs.Assembly.Neighbours
import FormulaEngine.Proofs.Assembly.Order
import FormulaEngine.Proofs.Assembly.Places
import FormulaEngine.Proofs.Assembly.Reading
import FormulaEngine.Proofs.Assembly.Steps
import FormulaEngine.Proofs.Assembly.Substitution
import FormulaEngine.Proofs.Assembly.Visits
import FormulaEngine.Proofs.Builtin.ArgumentOrder
import FormulaEngine.Proofs.Builtin.Averages
import FormulaEngine.Proofs.Builtin.OrderStatistics
import FormulaEngine.Proofs.Cache.Alike
import FormulaEngine.Proofs.Cache.Contents
import FormulaEngine.Proofs.Cache.Nesting
import FormulaEngine.Proofs.Cache.Recency
import FormulaEngine.Proofs.CommandLine.Bindings
import FormulaEngine.Proofs.CommandLine.Evaluation
import FormulaEngine.Proofs.CommandLine.Names
import FormulaEngine.Proofs.CommandLine.OneMore
import FormulaEngine.Proofs.CommandLine.UnusedConstant
import FormulaEngine.Proofs.Decimal.Integers
import FormulaEngine.Proofs.Decimal.Nearest
import FormulaEngine.Proofs.Decimal.Operations
import FormulaEngine.Proofs.Decimal.Text
import FormulaEngine.Proofs.Decimal.Value
import FormulaEngine.Proofs.Engine.Acceptance
import FormulaEngine.Proofs.Engine.Binding
import FormulaEngine.Proofs.Engine.Building
import FormulaEngine.Proofs.Engine.CacheKey
import FormulaEngine.Proofs.Engine.FailedRequests
import FormulaEngine.Proofs.Engine.LetterCase
import FormulaEngine.Proofs.Engine.Modes
import FormulaEngine.Proofs.Engine.OneShot
import FormulaEngine.Proofs.Engine.PartialEvaluation
import FormulaEngine.Proofs.Engine.Replacement
import FormulaEngine.Proofs.Engine.Requests
import FormulaEngine.Proofs.Engine.SingleBuild
import FormulaEngine.Proofs.Engine.Transparency
import FormulaEngine.Proofs.Evaluation.FoldedNames
import FormulaEngine.Proofs.Evaluation.IntegerFormulas
import FormulaEngine.Proofs.Evaluation.Lookup
import FormulaEngine.Proofs.Evaluation.ParsedFormulas
import FormulaEngine.Proofs.Evaluation.StructuralErrors
import FormulaEngine.Proofs.Folding.Attributes
import FormulaEngine.Proofs.Folding.Convergence
import FormulaEngine.Proofs.Folding.FixedPoint
import FormulaEngine.Proofs.Folding.IdempotentCalls
import FormulaEngine.Proofs.Folding.Pass
import FormulaEngine.Proofs.Folding.Soundness
import FormulaEngine.Proofs.Program.Agreement
import FormulaEngine.Proofs.Registry.History
import FormulaEngine.Proofs.Registry.LastRegistration
import FormulaEngine.Proofs.Text.Location
import FormulaEngine.Proofs.Text.Selection
import FormulaEngine.Proofs.Token.Alphabet
import FormulaEngine.Proofs.Token.Coverage
import FormulaEngine.Proofs.Token.DecimalComma
import FormulaEngine.Proofs.Token.Layout
import FormulaEngine.Proofs.Token.LongestMatch
import FormulaEngine.Proofs.Token.Refusal
import FormulaEngine.Proofs.Token.Respelling
import FormulaEngine.Proofs.Token.Scanning
import FormulaEngine.Proofs.Token.Spelling
import FormulaEngine.Proofs.Tree.Dependence
import FormulaEngine.Proofs.Tree.Equality
import FormulaEngine.Proofs.Tree.ErrorLocation
import FormulaEngine.Proofs.Tree.LetterCase
import FormulaEngine.Proofs.Tree.Names
import FormulaEngine.Proofs.Tree.Printing
import FormulaEngine.Proofs.Tree.Subtrees

import BoolCalc.Evaluation
import BoolCalc.Expr
import BoolCalc.Json.Decode
import BoolCalc.Keyword
import BoolCalc.Limits
import BoolCalc.Main
import BoolCalc.Normalize
import BoolCalc.Pipeline.Evaluator
import BoolCalc.Store.Scripted
import BoolCalc.Token.Lexer
import BoolCalc.Proofs.Batch.EventLines
import BoolCalc.Proofs.Batch.Projection
import BoolCalc.Proofs.Batch.RequestFile
import BoolCalc.Proofs.Binding.Reference
import BoolCalc.Proofs.Evaluation.Calls
import BoolCalc.Proofs.Evaluation.Operands
import BoolCalc.Proofs.Evaluation.Substitution
import BoolCalc.Proofs.Evaluation.Walk
import BoolCalc.Proofs.Grammar.Derivation
import BoolCalc.Proofs.Grammar.Nesting
import BoolCalc.Proofs.Grammar.Recognition
import BoolCalc.Proofs.Grammar.StrayParenthesis
import BoolCalc.Proofs.Json.Expression
import BoolCalc.Proofs.Log.Window
import BoolCalc.Proofs.Pipeline.Assignment
import BoolCalc.Proofs.Pipeline.BangSpelling
import BoolCalc.Proofs.Pipeline.CanonicalLimits
import BoolCalc.Proofs.Pipeline.Contract
import BoolCalc.Proofs.Pipeline.Depth
import BoolCalc.Proofs.Pipeline.ErrorLines
import BoolCalc.Proofs.Pipeline.ErrorPlaces
import BoolCalc.Proofs.Pipeline.KeywordSpelling
import BoolCalc.Proofs.Pipeline.Noninterference
import BoolCalc.Proofs.Pipeline.Occurrences
import BoolCalc.Proofs.Pipeline.Session
import BoolCalc.Proofs.Pipeline.Sharing
import BoolCalc.Proofs.Store.Definitions
import BoolCalc.Proofs.Store.Exhaustion
import BoolCalc.Proofs.Store.FailedCalls
import BoolCalc.Proofs.Store.Ledger
import BoolCalc.Proofs.Store.Numbering
import BoolCalc.Proofs.Store.Recording
import BoolCalc.Proofs.Token.LexicalGrammar
import BoolCalc.Proofs.Token.Normalization
import BoolCalc.Proofs.Token.Tallies

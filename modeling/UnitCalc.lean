import UnitCalc.Main
import UnitCalc.Json.Decoding
import UnitCalc.Proofs.StackReader
import UnitCalc.Proofs.Composition
import UnitCalc.Proofs.Precedence
import UnitCalc.Proofs.NothingLost
import UnitCalc.Proofs.WrittenForms
import UnitCalc.Proofs.Rounding
import UnitCalc.Proofs.OpenBrackets
import UnitCalc.Proofs.Culprits
import UnitCalc.Proofs.EvaluationTrace
import UnitCalc.Proofs.FiniteQuantities
import UnitCalc.Proofs.FiniteResults
import UnitCalc.Proofs.RaisedLimit
import UnitCalc.Proofs.GrowingCatalogue
import UnitCalc.Proofs.SyntaxFirst
import UnitCalc.Proofs.Transcripts
import UnitCalc.Proofs.UnitFree
import UnitCalc.Proofs.CommandRuns
import UnitCalc.Proofs.DatabaseRows
import UnitCalc.Proofs.FloatArithmetic
import UnitCalc.Proofs.NearestLiterals
import UnitCalc.Proofs.ShortestDigits
import UnitCalc.Proofs.NumbersReadBack
import UnitCalc.Proofs.PrintedQuantities
import UnitCalc.Proofs.FailureLines
import UnitCalc.Proofs.StoredTrees
import UnitCalc.Proofs.Dissolving
import UnitCalc.Proofs.Rescanning
import UnitCalc.Proofs.Interchange
import UnitCalc.Proofs.Regrouping
import UnitCalc.Proofs.TripleLevels
import UnitCalc.Proofs.ResolvedTokens
import UnitCalc.Proofs.ZerothPowers
import UnitCalc.Proofs.ColumnOrder
import UnitCalc.Proofs.RowLines
import UnitCalc.Proofs.ByteOrderMarks
import UnitCalc.Proofs.NumberTokens
import UnitCalc.Proofs.Variables
import UnitCalc.Proofs.MatchingBrackets
import UnitCalc.Proofs.MaximalMunch

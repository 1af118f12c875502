import LineCalc.Binary64.Bits
import LineCalc.Main
import LineCalc.Proofs.Items
import LineCalc.Proofs.Lexing
import LineCalc.Proofs.Walk
import LineCalc.Proofs.Evaluation
import LineCalc.Proofs.MovedPositions
import LineCalc.Proofs.BlankInsertion
import LineCalc.Proofs.Whole
import LineCalc.Proofs.Conversion
import LineCalc.Proofs.WholeResults
import LineCalc.Proofs.WholeDecimals
import LineCalc.Proofs.TypedBack
import LineCalc.Proofs.CursorRuns
import LineCalc.Proofs.Suffixes
import LineCalc.Proofs.FaultPlaces
import LineCalc.Proofs.Agreement
import LineCalc.Proofs.Renderings
import LineCalc.Proofs.TrailingText
import LineCalc.Proofs.ExactIntegers
import LineCalc.Proofs.DecimalTexts
import LineCalc.Proofs.Displays
import LineCalc.Proofs.NearestConversion
import LineCalc.Proofs.EventLogs
import LineCalc.Proofs.FoldLog
import LineCalc.Proofs.Lookahead
import LineCalc.Proofs.Sessions
import LineCalc.Proofs.HeldFaults
import LineCalc.Proofs.IntegerQuestions
import LineCalc.Proofs.ScannedLexemes
import LineCalc.Proofs.LegalLines
import LineCalc.Proofs.RationalRounding
import LineCalc.Proofs.ShortestDigits
import LineCalc.Proofs.Numerals
import LineCalc.Proofs.BytePositions
import LineCalc.Proofs.Accumulators
import LineCalc.Proofs.UndefinedResults
import LineCalc.Proofs.NegativeZeros
import LineCalc.Proofs.ZeroDivisors

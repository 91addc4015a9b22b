import LetterLang.Main
import LetterLang.Proofs.Derivation
import LetterLang.Proofs.Reading
import LetterLang.Proofs.Soundness
import LetterLang.Proofs.CompleteExpressions
import LetterLang.Proofs.Completeness
import LetterLang.Proofs.Scanning
import LetterLang.Proofs.Acceptance
import LetterLang.Proofs.WholeNumber
import LetterLang.Proofs.WellFormed
import LetterLang.Proofs.Printed
import LetterLang.Proofs.LexemeText
import LetterLang.Proofs.PrintedText
import LetterLang.Proofs.Reprinting
import LetterLang.Proofs.RoundTrip
import LetterLang.Proofs.Alike
import LetterLang.Proofs.Productions
import LetterLang.Proofs.Budget
import LetterLang.Proofs.Climbing
import LetterLang.Proofs.Passage
import LetterLang.Proofs.Lossless
import LetterLang.Proofs.LongestMatch
import LetterLang.Proofs.Truncation
import LetterLang.Proofs.CorrectPrefix
import LetterLang.Proofs.Failure
import LetterLang.Proofs.Nesting
import LetterLang.Proofs.Limit
import LetterLang.Proofs.Descent
import LetterLang.Proofs.Progress
import LetterLang.Proofs.ErrorSpan
import LetterLang.Proofs.Continuation
import LetterLang.Proofs.Steering
import LetterLang.Proofs.Guidance
import LetterLang.Proofs.ViableExpectation
import LetterLang.Proofs.ScannedTokens
import LetterLang.Proofs.Relocation
import LetterLang.Proofs.Persistence
import LetterLang.Proofs.Concatenation
import LetterLang.Proofs.NumberText
import LetterLang.Proofs.JsonText
import LetterLang.Proofs.TreeJson
import LetterLang.Proofs.Lines
import LetterLang.Proofs.ScannerRuns
import LetterLang.Proofs.FileRuns
import LetterLang.Proofs.Respacing
import LetterLang.Proofs.Rounding
import LetterLang.Proofs.NumberLiteral
import LetterLang.Proofs.Vocabulary
import LetterLang.Proofs.JsonGrammar
import LetterLang.Proofs.ConfigText
import LetterLang.Proofs.TokenDump

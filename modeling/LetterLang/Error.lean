import LetterLang.Kind
import LetterLang.Span

/-!
# Errors of scanning and parsing

A failed scan or parse ends with one error. An error is a cause with the data that its message
shows; each cause has a number of its own and a span of source text that it points at.
-/

namespace LetterLang

/-- Why no token could be read at a place. -/
inductive ScanError where
  | unexpectedCharacter (character : Char) (offset : UInt32)
  | unterminatedString (quote : Char) (offset : UInt32)
  | unterminatedComment (offset : UInt32)
deriving DecidableEq, Repr

namespace ScanError

def message : ScanError → String
  | .unexpectedCharacter character offset =>
    s!"Unexpected character '{character}' at offset {offset.toNat}."
  | .unterminatedString quote offset =>
    s!"Unterminated string literal starting at offset {offset.toNat}; closing {quote} expected."
  | .unterminatedComment offset =>
    s!"Unterminated comment starting at offset {offset.toNat}; '*/' expected."

def code : ScanError → Nat
  | .unexpectedCharacter .. => 1127
  | .unterminatedString .. => 1002
  | .unterminatedComment .. => 1010

/-- The offending character, the opening quote, or the opening of the comment. -/
def span : ScanError → Span
  | .unexpectedCharacter character offset => ⟨offset, UInt32.ofNat character.utf8Size⟩
  | .unterminatedString _ offset => ⟨offset, 1⟩
  | .unterminatedComment offset => ⟨offset, 2⟩

end ScanError

/-- What a place in the grammar calls for. -/
inductive Expectation where
  | token (kind : TokenKind)
  | expression
  | assignmentOperator
  | logicalOperator
  | binaryOperator
  | unaryOperator
deriving DecidableEq, Repr

def Expectation.name : Expectation → String
  | .token kind => kind.name
  | .expression => "expression"
  | .assignmentOperator => "assignment operator"
  | .logicalOperator => "logical operator"
  | .binaryOperator => "binary operator"
  | .unaryOperator => "unary operator"

/-- Why a sequence of tokens is no program. -/
inductive SyntaxError where
  | unexpectedToken (found : String) (expected : Expectation) (span : Span)
  | unexpectedEnd (expected : Expectation) (offset : UInt32)
  | invalidTarget (found : Kind) (span : Span)
  | expressionExpected (found : String) (span : Span)
  | unexpectedLiteral (found : String) (span : Span)
  | nestingTooDeep (limit : UInt32) (span : Span)
deriving DecidableEq, Repr

namespace SyntaxError

def message : SyntaxError → String
  | .unexpectedToken found expected _ =>
    s!"Unexpected token: \"{found}\", expected: \"{expected.name}\"."
  | .unexpectedEnd expected _ =>
    s!"Unexpected end of input, expected: \"{expected.name}\"."
  | .invalidTarget found _ =>
    s!"Invalid left-hand side in assignment expression: {found.name} is not assignable."
  | .expressionExpected found _ =>
    s!"Unexpected token: \"{found}\", expected an expression."
  | .unexpectedLiteral found _ =>
    s!"Unexpected literal production: \"{found}\"."
  | .nestingTooDeep limit _ =>
    s!"Maximum nesting depth of {limit.toNat} exceeded."

def code : SyntaxError → Nat
  | .unexpectedToken .. => 1005
  | .unexpectedEnd .. => 1126
  | .invalidTarget .. => 2364
  | .expressionExpected .. => 1109
  | .unexpectedLiteral .. => 1110
  | .nestingTooDeep .. => 1200

def span : SyntaxError → Span
  | .unexpectedToken _ _ span => span
  | .unexpectedEnd _ offset => Span.empty offset
  | .invalidTarget _ span => span
  | .expressionExpected _ span => span
  | .unexpectedLiteral _ span => span
  | .nestingTooDeep _ span => span

end SyntaxError

/-- The one failure that a parse can end with. -/
inductive ParseError where
  | scan (error : ScanError)
  | grammar (error : SyntaxError)
deriving DecidableEq, Repr

namespace ParseError

def message : ParseError → String
  | .scan e => e.message
  | .grammar e => e.message

def code : ParseError → Nat
  | .scan e => e.code
  | .grammar e => e.code

def span : ParseError → Span
  | .scan e => e.span
  | .grammar e => e.span

end ParseError

end LetterLang

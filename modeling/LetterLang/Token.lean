import LetterLang.Kind
import LetterLang.Span
import LetterLang.Text.Quoted

/-!
# Tokens

A token is a kind, the exact source text it was read from, and where that text stands. The end of
the input is a token of its own kind with no text.
-/

namespace LetterLang

/-- A token of the source. A string token keeps its quotes. -/
structure Token where
  kind : TokenKind
  text : String
  span : Span
deriving DecidableEq, Repr

namespace Token

def ofChars (kind : TokenKind) (cs : List Char) (offset : Nat) : Token :=
  ⟨kind, String.ofList cs, Span.ofNat offset (Text.byteLength cs)⟩

def endOfInput (offset : UInt32) : Token :=
  ⟨.endOfInput, "", Span.empty offset⟩

def isEnd (t : Token) : Bool :=
  t.kind = .endOfInput

/-- A token is shown as `KIND "text" @start..stop`. -/
def display (t : Token) : String :=
  t.kind.name ++ " " ++ Text.quoted t.text ++ " @" ++ t.span.text

end Token

end LetterLang

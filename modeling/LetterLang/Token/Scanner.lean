import LetterLang.Error
import LetterLang.Token
import LetterLang.Token.Rule

/-!
# The scanner

A scanner is a cursor in a source. `Scanner.next` skips blanks and comments and reads one token,
or finds the end of the input, or fails; a failure leaves the cursor at the text that could not be
read. `Scanner.stream` reads on to the end of the input or to the first failure.
-/

namespace LetterLang

/-- A cursor in a source: the byte offset it has reached and the characters not yet read. -/
structure Scanner where
  source : String
  position : Nat
  rest : List Char

namespace Scanner

def ofSource (source : String) : Scanner :=
  ⟨source, 0, source.toList⟩

def init (_ : Scanner) (source : String) : Scanner :=
  ofSource source

/-- Whether characters are left, be they only blanks and comments. -/
def hasMoreInput (s : Scanner) : Bool :=
  s.position < s.source.utf8ByteSize

def isAtEnd (s : Scanner) : Bool :=
  s.source.utf8ByteSize ≤ s.position

def advance (s : Scanner) (n : Nat) : Scanner :=
  { s with position := s.position + Text.byteLength (s.rest.take n), rest := s.rest.drop n }

/-- Whether the text opens a block comment that nothing closes. -/
def opensComment : List Char → Bool
  | '/' :: '*' :: cs => (Pattern.untilCommentEnd cs).isNone
  | _ => false

/-- The failure at a text that no rule matches. In the empty text there is nothing to blame but a
null character. -/
def unmatched (rest : List Char) (position : Nat) : ScanError :=
  let offset := UInt32.ofNat position
  match rest with
  | [] => .unexpectedCharacter '\x00' offset
  | c :: _ =>
    if c = '"' ∨ c = '\'' then .unterminatedString c offset else .unexpectedCharacter c offset

theorem rest_ne_nil {s : Scanner} {rule : Rule} {n : Nat}
    (hr : Rule.first? s.rest = some (rule, n)) : s.rest ≠ [] := by
  intro hs
  rw [hs] at hr
  cases hr

/-- A match is never empty. -/
theorem length_rest_advance {s : Scanner} {rule : Rule} {n : Nat}
    (hr : Rule.first? s.rest = some (rule, n)) : (s.advance n).rest.length < s.rest.length := by
  rw [advance, List.length_drop]
  exact Nat.sub_lt (List.length_pos_iff.2 (rest_ne_nil hr)) (Rule.first?_pos hr)

/-- The next token and the scanner after it. At the end of the input, and after a failure, the
answer stays the same and the cursor where it is. -/
def next (s : Scanner) : Except ScanError Token × Scanner :=
  let offset := UInt32.ofNat s.position
  if s.rest.isEmpty then (.ok (.endOfInput offset), s)
  -- The rules would read a comment that nothing closes as a slash and an asterisk.
  else if opensComment s.rest then (.error (.unterminatedComment offset), s)
  else match _hr : Rule.first? s.rest with
    | none => (.error (unmatched s.rest s.position), s)
    | some (⟨none, _⟩, n) => (s.advance n).next
    | some (⟨some kind, _⟩, n) =>
      (.ok (.ofChars kind (s.rest.take n) s.position), s.advance n)
termination_by s.rest.length
decreasing_by exact length_rest_advance _hr

/-- A token other than the end of the input has been read over at least one character. -/
theorem length_rest_next {s s' : Scanner} {t : Token} (h : s.next = (.ok t, s'))
    (ht : t.isEnd = false) : s'.rest.length < s.rest.length := by
  fun_induction next s with
  | case1 s offset hs =>
    cases h
    simp [Token.isEnd, Token.endOfInput] at ht
  | case2 => cases h
  | case3 => cases h
  | case4 s _ _ _ n hr ih => exact Nat.lt_trans (ih h) (length_rest_advance hr)
  | case5 s _ _ _ _ n hr =>
    cases h
    exact length_rest_advance hr

end Scanner

/-- How a sequence of tokens ends: at the end of the input, or at text that is no token. -/
inductive Ending where
  | complete (offset : UInt32)
  | fault (error : ScanError)
deriving DecidableEq, Repr

/-- What a scanner reads from its cursor on. -/
structure TokenStream where
  tokens : List Token
  ending : Ending
deriving DecidableEq, Repr

namespace Scanner

/-- The tokens from the cursor on, put after those already in `read`, the latest of which comes
first. -/
def streamAfter (read : List Token) (s : Scanner) : TokenStream :=
  match _h : s.next with
  | (.error e, _) => ⟨read.reverse, .fault e⟩
  | (.ok t, s') =>
    if _ht : t.isEnd then ⟨read.reverse, .complete t.span.start⟩
    else streamAfter (t :: read) s'
termination_by s.rest.length
decreasing_by exact length_rest_next _h (by simpa using _ht)

def stream (s : Scanner) : TokenStream :=
  s.streamAfter []

end Scanner

def TokenStream.ofSource (source : String) : TokenStream :=
  (Scanner.ofSource source).stream

/-- The tokens of a source, end of input excluded, if the whole source can be scanned. -/
def tokenize (source : String) : Except ScanError (List Token) :=
  match TokenStream.ofSource source with
  | ⟨tokens, .complete _⟩ => .ok tokens
  | ⟨_, .fault e⟩ => .error e

def dumpTokens (tokens : List Token) : String :=
  String.join (tokens.map fun t => t.display ++ "\n")

end LetterLang

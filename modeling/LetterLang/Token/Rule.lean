import LetterLang.Kind
import LetterLang.Text

/-!
# Lexical rules

The tokens of the language are given by an ordered table of rules. A rule is a pattern and the
kind of token it stands for; a rule without a kind describes text to be skipped, blanks and
comments. The first rule of the table whose pattern matches at the start of the text applies.
-/

namespace LetterLang

inductive CharClass where
  | blank | digit | word
deriving DecidableEq, Repr

def CharClass.contains : CharClass → Char → Bool
  | .blank => Text.isBlank
  | .digit => Text.isDigit
  | .word => Text.isWord

/-- What a rule accepts at the start of a text. -/
inductive Pattern where
  /-- The longest run of characters of a class. -/
  | run (cls : CharClass)
  /-- Exactly these characters. -/
  | literal (cs : List Char)
  /-- These characters, unless a word character follows. -/
  | wholeWord (cs : List Char)
  /-- One character out of a list. -/
  | oneOf (choices : List Char)
  /-- One character out of a list, and another one after it. -/
  | pair (choices : List Char) (second : Char)
  /-- One character out of a list, and another one after it if it is there. -/
  | pairOrOne (choices : List Char) (second : Char)
  /-- Two slashes and the rest of the line. -/
  | lineComment
  /-- A block comment up to the first place that closes it. -/
  | blockComment
  /-- A quote, text without that quote, and the quote again. -/
  | quoted (quote : Char)
deriving DecidableEq, Repr

namespace Pattern

/-- How many characters come before the first `*/`, if there is one. -/
def untilCommentEnd : List Char → Option Nat
  | '*' :: '/' :: _ => some 0
  | _ :: cs => (untilCommentEnd cs).map (· + 1)
  | [] => none

/-- How many characters come before the first `quote`, if there is one. -/
def untilQuote (quote : Char) : List Char → Option Nat
  | [] => none
  | c :: cs => if c = quote then some 0 else (untilQuote quote cs).map (· + 1)

/-- How many characters of the text the pattern accepts, possibly none. -/
def accepted : Pattern → List Char → Option Nat
  | .run cls, cs => some (cs.takeWhile cls.contains).length
  | .literal word, cs => if word.isPrefixOf cs then some word.length else none
  | .wholeWord word, cs =>
    if word.isPrefixOf cs && !(cs.drop word.length).head?.any Text.isWord then some word.length
    else none
  | .oneOf choices, c :: _ => if c ∈ choices then some 1 else none
  | .pair choices second, c :: d :: _ => if c ∈ choices ∧ d = second then some 2 else none
  | .pairOrOne choices second, c :: cs =>
    if c ∈ choices then some (if cs.head? = some second then 2 else 1) else none
  | .lineComment, '/' :: '/' :: cs => some (2 + (cs.takeWhile (· ≠ '\n')).length)
  | .blockComment, '/' :: '*' :: cs => (untilCommentEnd cs).map (· + 4)
  | .quoted quote, c :: cs => if c = quote then (untilQuote quote cs).map (· + 2) else none
  | _, _ => none

/-- How many characters of the text the pattern matches. A match is never empty. -/
def matchLength (p : Pattern) (cs : List Char) : Option Nat :=
  (p.accepted cs).filter (0 < ·)

theorem matchLength_pos {p : Pattern} {cs : List Char} {n : Nat} (h : p.matchLength cs = some n) :
    0 < n := by
  simpa using (Option.filter_eq_some_iff.1 h).2

end Pattern

/-- A pattern and the kind of token it stands for; no kind for text to be skipped. -/
structure Rule where
  kind : Option TokenKind
  pattern : Pattern

namespace Rule

def trivia : List Rule :=
  [⟨none, .run .blank⟩, ⟨none, .lineComment⟩, ⟨none, .blockComment⟩]

def delimiter (d : Delimiter) : Rule :=
  ⟨some (.delimiter d), .literal [d.char]⟩

def keyword (k : Keyword) : Rule :=
  ⟨some (.keyword k), .wholeWord k.text.toList⟩

/-- Numbers and identifiers. An identifier is tried after the reserved words and the numbers, so
it is no reserved word and does not start with a digit. -/
def words : List Rule :=
  [⟨some .number, .run .digit⟩, ⟨some .identifier, .run .word⟩]

/-- Operators, longer forms before their beginnings. -/
def operators : List Rule :=
  [⟨some .equality, .pair ['=', '!'] '='⟩,
    ⟨some .simpleAssign, .literal ['=']⟩,
    ⟨some .complexAssign, .pair ['*', '/', '+', '-'] '='⟩,
    ⟨some .additive, .oneOf ['+', '-']⟩,
    ⟨some .multiplicative, .oneOf ['*', '/']⟩,
    ⟨some .relational, .pairOrOne ['<', '>'] '='⟩,
    ⟨some .logicalAnd, .literal ['&', '&']⟩,
    ⟨some .logicalOr, .literal ['|', '|']⟩,
    ⟨some .logicalNot, .literal ['!']⟩]

/-- Strings: no escapes, and no quote of the same kind inside. -/
def strings : List Rule :=
  [⟨some .string, .quoted '"'⟩, ⟨some .string, .quoted '\''⟩]

/-- The table of rules, in the order in which they are tried. -/
def table : List Rule :=
  trivia ++ Delimiter.all.map delimiter ++ Keyword.all.map keyword ++ words ++ operators ++ strings

/-- The rule that applies at the start of a text, and how many characters it matches. -/
def first? (cs : List Char) : Option (Rule × Nat) :=
  table.findSome? fun rule => (rule.pattern.matchLength cs).map (rule, ·)

theorem first?_pos {cs : List Char} {rule : Rule} {n : Nat} (h : first? cs = some (rule, n)) :
    0 < n := by
  obtain ⟨r, _, hr⟩ := List.exists_of_findSome?_eq_some h
  obtain ⟨m, hm, he⟩ := Option.map_eq_some_iff.1 hr
  cases he
  exact Pattern.matchLength_pos hm

end Rule

end LetterLang

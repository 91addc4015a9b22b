import LetterLang.Parser.Level
import LetterLang.Tree
import LetterLang.Token
import Mathlib.Algebra.Group.Nat.Defs

/-!
# Lexemes

A lexeme is a token without its place in the source: a kind and a text. The grammar is stated over
lists of lexemes, so that it does not speak of offsets.

- `Lexeme.delimiter`, `Lexeme.keyword` and the `lexeme` of each operator are the terminals that
  have one spelling.
- `Lexeme.Spelled` says which texts a kind of token can have at all. Every token of a source is
  spelled, and the grammar never has to say so.
-/

namespace LetterLang

abbrev Lexeme := TokenKind × String

def Token.lexeme (t : Token) : Lexeme :=
  (t.kind, t.text)

/-- The kind of the first lexeme, or the end of the input if there is none. -/
def Lexeme.firstKind : List Lexeme → TokenKind
  | [] => .endOfInput
  | t :: _ => t.1

@[simp] theorem Lexeme.firstKind_nil : firstKind [] = .endOfInput := rfl

@[simp] theorem Lexeme.firstKind_cons (t : Lexeme) (ts : List Lexeme) :
    firstKind (t :: ts) = t.1 := rfl

/-! ## Terminals with one spelling -/

namespace Lexeme

def delimiter (d : Delimiter) : Lexeme :=
  (.delimiter d, d.text)

def keyword (k : Keyword) : Lexeme :=
  (.keyword k, k.text)

def identifier (name : String) : Lexeme :=
  (.identifier, name)

@[simp] theorem delimiter_fst (d : Delimiter) : (delimiter d).1 = .delimiter d := rfl

@[simp] theorem keyword_fst (k : Keyword) : (keyword k).1 = .keyword k := rfl

@[simp] theorem identifier_fst (name : String) : (identifier name).1 = .identifier := rfl

end Lexeme

def BinaryLevel.kind : BinaryLevel → TokenKind
  | .logicalOr => .logicalOr
  | .logicalAnd => .logicalAnd
  | .equality => .equality
  | .relational => .relational
  | .additive => .additive
  | .multiplicative => .multiplicative

@[simp] theorem BinaryLevel.ofKind?_kind (level : BinaryLevel) :
    ofKind? level.kind = some level := by
  cases level <;> rfl

theorem BinaryLevel.ofKind?_eq_some_iff {kind : TokenKind} {level : BinaryLevel} :
    ofKind? kind = some level ↔ kind = level.kind := by
  constructor
  · intro h
    cases kind <;> simp only [ofKind?, reduceCtorEq, Option.some.injEq] at h <;> subst h <;> rfl
  · rintro rfl
    exact ofKind?_kind level

def LogicalOp.level : LogicalOp → BinaryLevel
  | .or => .logicalOr
  | .and => .logicalAnd

def BinaryOp.level : BinaryOp → BinaryLevel
  | .equal | .notEqual => .equality
  | .greater | .greaterEqual | .less | .lessEqual => .relational
  | .add | .subtract => .additive
  | .multiply | .divide => .multiplicative

def AssignOp.lexeme (op : AssignOp) : Lexeme :=
  (if op = .assign then .simpleAssign else .complexAssign, op.symbol)

def LogicalOp.lexeme (op : LogicalOp) : Lexeme :=
  (op.level.kind, op.symbol)

def BinaryOp.lexeme (op : BinaryOp) : Lexeme :=
  (op.level.kind, op.symbol)

def UnaryOp.lexeme : UnaryOp → Lexeme
  | .plus => (.additive, UnaryOp.plus.symbol)
  | .minus => (.additive, UnaryOp.minus.symbol)
  | .not => (.logicalNot, UnaryOp.not.symbol)

@[simp] theorem LogicalOp.lexeme_fst (op : LogicalOp) : op.lexeme.1 = op.level.kind := rfl

@[simp] theorem BinaryOp.lexeme_fst (op : BinaryOp) : op.lexeme.1 = op.level.kind := rfl

theorem AssignOp.isAssignment_lexeme (op : AssignOp) : op.lexeme.1.isAssignment = true := by
  cases op <;> rfl

/-! ## Spelling -/

/-- Names: word characters, the first of them no digit, and no reserved word. -/
def Lexeme.isName (text : String) : Bool :=
  (text.toList.head?.any fun c => Text.isWord c && !Text.isDigit c) &&
    text.toList.all Text.isWord && Keyword.all.all (·.text ≠ text)

/-- The texts that a token of a kind can have. A string stands between two equal quotes and does
not hold that quote. -/
@[simp] def Lexeme.Spelled : Lexeme → Prop
  | (.endOfInput, _) => False
  | (.number, text) => text.toList ≠ [] ∧ ∀ c ∈ text.toList, Text.isDigit c = true
  | (.string, text) =>
    ∃ quote body, (quote = '"' ∨ quote = '\'') ∧ quote ∉ body ∧
      text.toList = quote :: body ++ [quote]
  | (.delimiter d, text) => text = d.text
  | (.keyword k, text) => text = k.text
  | (.identifier, text) => isName text = true
  | (.equality, text) => text = "==" ∨ text = "!="
  | (.simpleAssign, text) => text = "="
  | (.complexAssign, text) => text = "*=" ∨ text = "/=" ∨ text = "+=" ∨ text = "-="
  | (.additive, text) => text = "+" ∨ text = "-"
  | (.multiplicative, text) => text = "*" ∨ text = "/"
  | (.relational, text) => text = "<" ∨ text = ">" ∨ text = "<=" ∨ text = ">="
  | (.logicalAnd, text) => text = "&&"
  | (.logicalOr, text) => text = "||"
  | (.logicalNot, text) => text = "!"

namespace Lexeme.Spelled

variable {t : Lexeme}

theorem eq_delimiter {d : Delimiter} (h : t.Spelled) (hk : t.1 = .delimiter d) :
    t = Lexeme.delimiter d := by
  obtain ⟨kind, text⟩ := t
  cases hk
  exact Prod.ext rfl h

theorem eq_keyword {k : Keyword} (h : t.Spelled) (hk : t.1 = .keyword k) :
    t = Lexeme.keyword k := by
  obtain ⟨kind, text⟩ := t
  cases hk
  exact Prod.ext rfl h

theorem eq_simpleAssign (h : t.Spelled) (hk : t.1 = .simpleAssign) :
    t = AssignOp.assign.lexeme := by
  obtain ⟨kind, text⟩ := t
  cases hk
  exact Prod.ext rfl h

theorem eq_assign {op : AssignOp} (h : t.Spelled) (hk : t.1.isAssignment = true)
    (ht : AssignOp.ofSymbol? t.2 = some op) : t = op.lexeme := by
  obtain ⟨kind, text⟩ := t
  obtain rfl : op.symbol = text := by simpa using List.find?_some ht
  cases kind <;> simp only [TokenKind.isAssignment, Bool.false_eq_true] at hk <;>
    cases op <;> simp [Spelled, AssignOp.symbol, AssignOp.lexeme] at h ⊢

theorem eq_logical {op : LogicalOp} {level : BinaryLevel} (h : t.Spelled) (hk : t.1 = level.kind)
    (hl : level.isLogical = true) (ht : LogicalOp.ofSymbol? t.2 = some op) :
    op.level = level ∧ t = op.lexeme := by
  obtain ⟨kind, text⟩ := t
  obtain rfl : op.symbol = text := by simpa using List.find?_some ht
  cases level <;> simp only [BinaryLevel.isLogical, Bool.false_eq_true] at hl <;> cases hk <;>
    cases op <;> simp [Spelled, LogicalOp.symbol, LogicalOp.lexeme, LogicalOp.level,
      BinaryLevel.kind] at h ⊢

theorem eq_binary {op : BinaryOp} {level : BinaryLevel} (h : t.Spelled) (hk : t.1 = level.kind)
    (hl : level.isLogical = false) (ht : BinaryOp.ofSymbol? t.2 = some op) :
    op.level = level ∧ t = op.lexeme := by
  obtain ⟨kind, text⟩ := t
  obtain rfl : op.symbol = text := by simpa using List.find?_some ht
  cases level <;> simp only [BinaryLevel.isLogical, Bool.true_eq_false] at hl <;> cases hk <;>
    cases op <;> simp [Spelled, BinaryOp.symbol, BinaryOp.lexeme, BinaryOp.level,
      BinaryLevel.kind] at h ⊢

theorem eq_unary {op : UnaryOp} (h : t.Spelled) (hk : t.1 = .additive ∨ t.1 = .logicalNot)
    (ht : UnaryOp.ofSymbol? t.2 = some op) : t = op.lexeme := by
  obtain ⟨kind, text⟩ := t
  obtain rfl : op.symbol = text := by simpa using List.find?_some ht
  rcases hk with rfl | rfl <;>
    cases op <;> simp [Spelled, UnaryOp.symbol, UnaryOp.lexeme] at h ⊢

end Lexeme.Spelled

end LetterLang

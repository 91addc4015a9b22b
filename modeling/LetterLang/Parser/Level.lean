import LetterLang.Kind

/-!
# Levels of binary operators

The binary operators are left-associative and come in six levels, from the loosest to the
tightest. The kind of an operator token gives its level.
-/

namespace LetterLang

inductive BinaryLevel where
  | logicalOr | logicalAnd | equality | relational | additive | multiplicative
deriving DecidableEq, Repr

namespace BinaryLevel

/-- The place of a level, the loosest being 0. -/
def rank : BinaryLevel → Nat
  | .logicalOr => 0
  | .logicalAnd => 1
  | .equality => 2
  | .relational => 3
  | .additive => 4
  | .multiplicative => 5

/-- The loosest level, at which the left side of an assignment starts. -/
def loosest : BinaryLevel :=
  .logicalOr

def ofKind? : TokenKind → Option BinaryLevel
  | .logicalOr => some .logicalOr
  | .logicalAnd => some .logicalAnd
  | .equality => some .equality
  | .relational => some .relational
  | .additive => some .additive
  | .multiplicative => some .multiplicative
  | _ => none

/-- The next tighter level; none where the operands are unary expressions. -/
def tighter? : BinaryLevel → Option BinaryLevel
  | .logicalOr => some .logicalAnd
  | .logicalAnd => some .equality
  | .equality => some .relational
  | .relational => some .additive
  | .additive => some .multiplicative
  | .multiplicative => none

def isLogical : BinaryLevel → Bool
  | .logicalOr | .logicalAnd => true
  | _ => false

/-- Whether a token kind is an operator that binds at least as tightly as `min`. -/
def admits (min : BinaryLevel) (kind : TokenKind) : Bool :=
  (ofKind? kind).any fun level => min.rank ≤ level.rank

end BinaryLevel

end LetterLang

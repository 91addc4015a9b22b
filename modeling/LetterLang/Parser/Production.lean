import LetterLang.Parser.Level
import LetterLang.Parser.State
import LetterLang.Tree

/-!
# Productions

The names of the productions of the grammar, and what each yields.
-/

namespace LetterLang

/-- The productions that call other productions. -/
inductive Production where
  | statement
  | block
  | variableStatement
  | declarations
  | declaration
  | ifStatement
  | whileStatement
  | doWhileStatement
  | forStatement
  | functionDeclaration
  | returnStatement
  | classDeclaration
  | expressionStatement
  | assignment
  | binary (min : BinaryLevel)
  | unary
  | callMember
  | member
  | arguments
  | primary
  | new
deriving DecidableEq, Repr

namespace Production

abbrev Result : Production → Type
  | .statement | .variableStatement | .ifStatement | .whileStatement | .doWhileStatement
  | .forStatement | .functionDeclaration | .returnStatement | .classDeclaration
  | .expressionStatement => Statement
  | .block => List Statement
  | .declarations => List Declaration
  | .declaration => Declaration
  | .assignment | .binary _ | .unary | .callMember | .member | .primary | .new => Expr
  | .arguments => List Expr

abbrev Calls := (p : Production) → Parse p.Result

end Production

end LetterLang

import LetterLang.Proofs.Lexeme
import LetterLang.Proofs.WholeNumber

/-!
# Well-formed trees

The type of trees has more trees than there are programs.

- `Program.wellFormed` tells the trees that are programs: names are names, numbers are whole,
  strings can be put in quotes, `super` is only called, and no `else` follows a statement that
  would take it for its own.
- `Program.levels` is how deep a program nests where it has the parentheses that it needs and no
  others. An expression takes one level more than `Expr.levels` says where it stands at the level
  of assignments, and where it is put in parentheses.
-/

namespace LetterLang

/-! ## Well-formedness -/

/-- Strings have no escapes, so no text holds both quotes. -/
def Expr.isQuotable (text : String) : Bool :=
  !(text.toList.contains '"' && text.toList.contains '\'')

def Expr.isIdentifier : Expr → Bool
  | .identifier _ => true
  | _ => false

def Expr.isSuper : Expr → Bool
  | .super => true
  | _ => false

mutual

@[simp] def Expr.wellFormed : Expr → Bool
  | .identifier name => Lexeme.isName name
  | .number value => value.isWhole
  | .string value => Expr.isQuotable value
  | .boolean _ | .null | .this => true
  | .super => false
  | .assign _ name value => Lexeme.isName name && value.wellFormed
  | .assignMember _ object property computed value =>
    object.wellFormed && property.wellFormed && (computed || property.isIdentifier) &&
      value.wellFormed
  | .logical _ left right => left.wellFormed && right.wellFormed
  | .binary _ left right => left.wellFormed && right.wellFormed
  | .unary _ argument => argument.wellFormed
  | .member object property computed =>
    object.wellFormed && property.wellFormed && (computed || property.isIdentifier)
  | .call callee arguments =>
    (callee.isSuper || callee.wellFormed) && Expr.listWellFormed arguments
  | .new callee arguments => callee.wellFormed && Expr.listWellFormed arguments

@[simp] def Expr.listWellFormed : List Expr → Bool
  | [] => true
  | e :: es => e.wellFormed && Expr.listWellFormed es

end

def Expr.optionWellFormed (e : Option Expr) : Bool :=
  e.all Expr.wellFormed

def Declaration.wellFormed (d : Declaration) : Bool :=
  Lexeme.isName d.name && Expr.optionWellFormed d.init

/-- A `let` declares at least one name. -/
def Declaration.listWellFormed (ds : List Declaration) : Bool :=
  !ds.isEmpty && ds.all wellFormed

def ForInit.wellFormed : ForInit → Bool
  | .declarations ds => Declaration.listWellFormed ds
  | .expression e => e.wellFormed

/-- Whether a statement ends in an `if` without `else`: an `else` after it would be read as the
`else` of that `if`. -/
@[simp] def Statement.endsOpen : Statement → Bool
  | .ifThen .. => true
  | .ifElse _ _ alternate => alternate.endsOpen
  | .whileLoop _ body => body.endsOpen
  | .forLoop _ _ _ body => body.endsOpen
  | _ => false

mutual

@[simp] def Statement.wellFormed : Statement → Bool
  | .expression e => e.wellFormed
  | .empty => true
  | .block body => Statement.listWellFormed body
  | .variable declarations => Declaration.listWellFormed declarations
  | .ifThen test consequent => test.wellFormed && consequent.wellFormed
  | .ifElse test consequent alternate =>
    test.wellFormed && consequent.wellFormed && !consequent.endsOpen && alternate.wellFormed
  | .whileLoop test body => test.wellFormed && body.wellFormed
  | .doWhile body test => body.wellFormed && test.wellFormed
  | .forLoop init test update body =>
    init.all ForInit.wellFormed && Expr.optionWellFormed test && Expr.optionWellFormed update &&
      body.wellFormed
  | .function name params body =>
    Lexeme.isName name && params.all Lexeme.isName && Statement.listWellFormed body
  | .return argument => Expr.optionWellFormed argument
  | .class name superclass body =>
    Lexeme.isName name && superclass.all Lexeme.isName && Statement.listWellFormed body

@[simp] def Statement.listWellFormed : List Statement → Bool
  | [] => true
  | s :: ss => s.wellFormed && Statement.listWellFormed ss

end

def Program.wellFormed (p : Program) : Bool :=
  Statement.listWellFormed p.body

/-! ## Levels -/

/-- The levels of an expression that takes `inner` by itself, in a place that calls for `min`. -/
def Expr.levelsIn (e : Expr) (min : Precedence) (inner : Nat) : Nat :=
  if e.precedence.rank < min.rank then inner + 1 else inner

mutual

@[simp] def Expr.levels : Expr → Nat
  | .assign _ _ value => value.levels + 1
  | .assignMember _ object property computed value =>
    max (max (object.levelsIn .member object.levels) (if computed then property.levels + 1 else 0))
      (value.levels + 1)
  | .logical op left right =>
    max (left.levelsIn op.precedence left.levels)
      (right.levelsIn op.precedence.tighter right.levels)
  | .binary op left right =>
    max (left.levelsIn op.precedence left.levels)
      (right.levelsIn op.precedence.tighter right.levels)
  | .unary _ argument => argument.levelsIn .unary argument.levels + 1
  | .member object property computed =>
    max (object.levelsIn .member object.levels) (if computed then property.levels + 1 else 0)
  | .call callee arguments =>
    max (callee.levelsIn .call callee.levels) (Expr.listLevels arguments)
  | .new callee arguments =>
    max (callee.levelsIn .member callee.levels) (Expr.listLevels arguments) + 1
  | _ => 0

/-- Expressions that stand at the level of assignments, each one level deeper. -/
@[simp] def Expr.listLevels : List Expr → Nat
  | [] => 0
  | e :: es => max (e.levels + 1) (Expr.listLevels es)

end

@[simp] def Expr.optionLevels : Option Expr → Nat
  | some e => e.levels + 1
  | none => 0

@[simp] def Declaration.listLevels : List Declaration → Nat
  | [] => 0
  | d :: ds => max (Expr.optionLevels d.init) (listLevels ds)

@[simp] def ForInit.optionLevels : Option ForInit → Nat
  | some (.declarations ds) => Declaration.listLevels ds
  | some (.expression e) => e.levels + 1
  | none => 0

mutual

@[simp] def Statement.levels : Statement → Nat
  | .expression e => e.levels + 1 + 1
  | .empty => 1
  | .block body => Statement.listLevels body + 1
  | .variable declarations => Declaration.listLevels declarations + 1
  | .ifThen test consequent => max (test.levels + 1) consequent.levels + 1
  | .ifElse test consequent alternate =>
    max (max (test.levels + 1) consequent.levels) alternate.levels + 1
  | .whileLoop test body => max (test.levels + 1) body.levels + 1
  | .doWhile body test => max body.levels (test.levels + 1) + 1
  | .forLoop init test update body =>
    max (max (ForInit.optionLevels init) (Expr.optionLevels test))
      (max (Expr.optionLevels update) body.levels) + 1
  | .function _ _ body => Statement.listLevels body + 1
  | .return argument => Expr.optionLevels argument + 1
  | .class _ _ body => Statement.listLevels body + 1

@[simp] def Statement.listLevels : List Statement → Nat
  | [] => 0
  | s :: ss => max s.levels (Statement.listLevels ss)

end

def Program.levels (p : Program) : Nat :=
  Statement.listLevels p.body

end LetterLang

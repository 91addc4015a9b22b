import LetterLang.Parser.Production

/-!
# The grammar

Each production is written with a family `call` that stands for its calls of other productions, so
the grammar is one function `Grammar.body` from calls to productions. `Grammar.run` closes it: a
production run with `n + 1` calls makes its own calls with `n`.

One token of lookahead decides every choice. Statements, expressions at the level of assignments,
operands of unary operators and `new` count as levels of nesting.
-/

namespace LetterLang.Grammar

open Parse
open Production (Calls)

variable (g : Setting) (call : Calls)

/-! ## Statements -/

def statementOf : TokenKind → Parse Statement
  | .delimiter .semicolon => do
    delimiter g .semicolon
    return .empty
  | .delimiter .openBrace => return .block (← call .block)
  | .keyword .letWord => call .variableStatement
  | .keyword .ifWord => call .ifStatement
  | .keyword .whileWord => call .whileStatement
  | .keyword .doWord => call .doWhileStatement
  | .keyword .forWord => call .forStatement
  | .keyword .defWord => call .functionDeclaration
  | .keyword .classWord => call .classDeclaration
  | .keyword .returnWord => call .returnStatement
  | _ => call .expressionStatement

def statement : Parse Statement :=
  nested g do statementOf g call (← kind)

/-- Statements up to a token of the kind `stop`, or up to the end of the input. -/
def statementsUntil (stop : TokenKind) : Parse (List Statement) :=
  collectWhile (fun k => k ≠ stop && k ≠ .endOfInput) (call .statement)

def block : Parse (List Statement) := do
  delimiter g .openBrace
  let body ← statementsUntil call (.delimiter .closeBrace)
  delimiter g .closeBrace
  return body

def variableStatement : Parse Statement := do
  let list ← call .declarations
  delimiter g .semicolon
  return .variable list

def declarations : Parse (List Declaration) := do
  keyword g .letWord
  commaSeparated g (call .declaration)

def declaration : Parse Declaration := do
  let name ← identifier g
  match ← kind with
  | .delimiter .semicolon | .delimiter .comma => return ⟨name, none⟩
  | _ => do
    discard (eat g .simpleAssign)
    return ⟨name, some (← call .assignment)⟩

def condition : Parse Expr := do
  delimiter g .openParen
  let test ← call .assignment
  delimiter g .closeParen
  return test

/-- An `else` belongs to the nearest `if` before it that has none. -/
def ifStatement : Parse Statement := do
  keyword g .ifWord
  let test ← condition g call
  let consequent ← call .statement
  if (← kind) = .keyword .elseWord then
    keyword g .elseWord
    return .ifElse test consequent (← call .statement)
  else return .ifThen test consequent

def whileStatement : Parse Statement := do
  keyword g .whileWord
  let test ← condition g call
  return .whileLoop test (← call .statement)

def doWhileStatement : Parse Statement := do
  keyword g .doWord
  let body ← call .statement
  keyword g .whileWord
  let test ← condition g call
  delimiter g .semicolon
  return .doWhile body test

/-- An expression, unless the next token is the delimiter that ends it. -/
def expressionUnless (stop : Delimiter) : Parse (Option Expr) := do
  if (← kind) = .delimiter stop then return none else return some (← call .assignment)

def forInit : Parse (Option ForInit) := do
  match ← kind with
  | .delimiter .semicolon => return none
  | .keyword .letWord => return some (.declarations (← call .declarations))
  | _ => return some (.expression (← call .assignment))

def forStatement : Parse Statement := do
  keyword g .forWord
  delimiter g .openParen
  let init ← forInit call
  delimiter g .semicolon
  let test ← expressionUnless call .semicolon
  delimiter g .semicolon
  let update ← expressionUnless call .closeParen
  delimiter g .closeParen
  return .forLoop init test update (← call .statement)

/-- The names of the parameters, none if the parenthesis closes at once. -/
def parameters : Parse (List String) := do
  if (← kind) = .delimiter .closeParen then return [] else commaSeparated g (identifier g)

def functionDeclaration : Parse Statement := do
  keyword g .defWord
  let name ← identifier g
  delimiter g .openParen
  let params ← parameters g
  delimiter g .closeParen
  return .function name params (← call .block)

def returnStatement : Parse Statement := do
  keyword g .returnWord
  let argument ← expressionUnless call .semicolon
  delimiter g .semicolon
  return .return argument

def superclass : Parse (Option String) := do
  if (← kind) = .keyword .extendsWord then
    keyword g .extendsWord
    return some (← identifier g)
  else return none

def classDeclaration : Parse Statement := do
  keyword g .classWord
  let name ← identifier g
  let parent ← superclass g
  return .class name parent (← call .block)

def expressionStatement : Parse Statement := do
  let e ← call .assignment
  delimiter g .semicolon
  return .expression e

/-! ## Expressions -/

/-- Ends the parse at an operator token whose text is no operator of its family. -/
def unknownOperator {α : Type} (t : Token) (expected : Expectation) : Parse α :=
  fail (.unexpectedToken t.text expected t.span)

/-- An assignment at its own level of nesting. Assignments group to the right. -/
def assignmentInside : Parse Expr := do
  let left ← call (.binary .loosest)
  let k ← kind
  if k.isAssignment then
    let t ← eat g k
    match AssignOp.ofSymbol? t.text with
    | none => unknownOperator t .assignmentOperator
    | some op =>
      -- What stands behind the operator has been scanned before its target is looked at.
      match left with
      | .identifier name => return .assign op name (← call .assignment)
      | .member object property computed =>
        return .assignMember op object property computed (← call .assignment)
      | _ => fail (.invalidTarget left.kind t.span)
  else return left

def assignment : Parse Expr :=
  nested g (assignmentInside g call)

def makeBinary (level : BinaryLevel) (t : Token) (left right : Expr) : Parse Expr :=
  if level.isLogical then
    match LogicalOp.ofSymbol? t.text with
    | some op => return .logical op left right
    | none => unknownOperator t .logicalOperator
  else
    match BinaryOp.ofSymbol? t.text with
    | some op => return .binary op left right
    | none => unknownOperator t .binaryOperator

/-- The right operand of an operator: only operators of tighter levels belong to it. -/
def rightOperand (level : BinaryLevel) : Parse Expr :=
  match level.tighter? with
  | some next => call (.binary next)
  | none => call .unary

/-- One operator of level `min` or tighter and its right operand, put to the expression `left`. -/
def binaryStep (left : Expr) : Parse Expr := do
  let k ← kind
  match BinaryLevel.ofKind? k with
  | none => return left
  | some level =>
    let t ← eat g k
    let right ← rightOperand call level
    makeBinary level t left right

/-- Operands joined by operators that bind at least as tightly as `min`. Operators of one level
group to the left. -/
def binary (min : BinaryLevel) : Parse Expr := do
  let left ← call .unary
  whileKind min.admits (binaryStep g call) left

def unary : Parse Expr := do
  let k ← kind
  if k = .additive ∨ k = .logicalNot then
    let t ← eat g k
    match UnaryOp.ofSymbol? t.text with
    | none => unknownOperator t .unaryOperator
    -- The operand takes a level, besides the one of the expression that it stands in.
    | some op => return .unary op (← nested g (call .unary))
  else call .callMember

/-- One or more argument lists, each applied to what stands before it. -/
def callTail (callee : Expr) : Parse Expr := do
  let arguments ← call .arguments
  whileKind (· = .delimiter .openParen)
    (fun callee => return .call callee (← call .arguments)) (.call callee arguments)

/-- A chain of members, called or not. `super` can only be called. -/
def callMember : Parse Expr := do
  if (← kind) = .keyword .superWord then
    keyword g .superWord
    callTail call .super
  else
    let callee ← call .member
    if (← kind) = .delimiter .openParen then callTail call callee else return callee

def memberStep (object : Expr) : Parse Expr := do
  if (← kind) = .delimiter .dot then
    delimiter g .dot
    return .member object (.identifier (← identifier g)) false
  else
    delimiter g .openBracket
    let property ← call .assignment
    delimiter g .closeBracket
    return .member object property true

def startsAccess (k : TokenKind) : Bool :=
  k = .delimiter .dot || k = .delimiter .openBracket

def member : Parse Expr := do
  let object ← call .primary
  whileKind startsAccess (memberStep g call) object

def arguments : Parse (List Expr) := do
  delimiter g .openParen
  let list ←
    if (← kind) = .delimiter .closeParen then pure [] else commaSeparated g (call .assignment)
  delimiter g .closeParen
  return list

def unquoted (text : String) : String :=
  String.ofList text.toList.tail.dropLast

/-- The literal that a token stands for. A number too large to be finite is none. -/
def literal? (t : Token) : Option Expr :=
  match t.kind with
  | .number => (Binary64.ofText? t.text).bind fun v => if v.isFinite then some (.number v) else none
  | .string => some (.string (unquoted t.text))
  | .keyword .trueWord => some (.boolean true)
  | .keyword .falseWord => some (.boolean false)
  | .keyword .nullWord => some .null
  | _ => none

/-- The value is checked before the token after it is scanned. -/
def literal : Parse Expr := do
  let t ← lookahead g
  match literal? t with
  | none => fail (.unexpectedLiteral t.text t.span)
  | some e => do
    discard (eat g t.kind)
    return e

/-- Ends the parse at a token that cannot start an expression. -/
def expressionExpected : Parse Expr := do
  match (← get).pending with
  | [] => unexpected g .expression
  | t :: _ => fail (.expressionExpected t.text t.span)

def primary : Parse Expr := do
  let k ← kind
  if k.isLiteral then literal g
  else match k with
    | .delimiter .openParen => condition g call
    | .identifier => return .identifier (← identifier g)
    | .keyword .thisWord => do
      keyword g .thisWord
      return .this
    | .keyword .newWord => nested g (call .new)
    | _ => expressionExpected g

def new : Parse Expr := do
  keyword g .newWord
  let callee ← call .member
  return .new callee (← call .arguments)

/-! ## The grammar -/

/-- The grammar: each production in terms of its calls. -/
def body : Calls
  | .statement => statement g call
  | .block => block g call
  | .variableStatement => variableStatement g call
  | .declarations => declarations g call
  | .declaration => declaration g call
  | .ifStatement => ifStatement g call
  | .whileStatement => whileStatement g call
  | .doWhileStatement => doWhileStatement g call
  | .forStatement => forStatement g call
  | .functionDeclaration => functionDeclaration g call
  | .returnStatement => returnStatement g call
  | .classDeclaration => classDeclaration g call
  | .expressionStatement => expressionStatement g call
  | .assignment => assignment g call
  | .binary min => binary g call min
  | .unary => unary g call
  | .callMember => callMember g call
  | .member => member g call
  | .arguments => arguments g call
  | .primary => primary g call
  | .new => new g call

/-- A production run with a number of calls that it may have open at once, its own included. -/
def run : Nat → Calls
  | 0, _ => throw .outOfCalls
  | calls + 1, p => body g (run calls) p

end LetterLang.Grammar

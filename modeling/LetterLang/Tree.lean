import LetterLang.Kind
import LetterLang.Number.Binary64
import LetterLang.Operator

/-!
# Syntax trees

The trees of the language: expressions, statements and programs. An assignment writes to a name
or to a member, and the type has no other assignment.
-/

namespace LetterLang

inductive Expr where
  | identifier (name : String)
  | number (value : Binary64)
  | string (value : String)
  | boolean (value : Bool)
  | null
  /-- An assignment to a name. -/
  | assign (op : AssignOp) (name : String) (value : Expr)
  /-- An assignment to a member. -/
  | assignMember (op : AssignOp) (object property : Expr) (computed : Bool) (value : Expr)
  | logical (op : LogicalOp) (left right : Expr)
  | binary (op : BinaryOp) (left right : Expr)
  | unary (op : UnaryOp) (argument : Expr)
  /-- A member of an object: by any expression in brackets if `computed`, else by a name. -/
  | member (object property : Expr) (computed : Bool)
  | call (callee : Expr) (arguments : List Expr)
  | new (callee : Expr) (arguments : List Expr)
  | this
  | super

/-- A name being declared, and the expression that gives its first value. -/
structure Declaration where
  name : String
  init : Option Expr

inductive ForInit where
  | declarations (list : List Declaration)
  | expression (e : Expr)

inductive Statement where
  | expression (e : Expr)
  | empty
  | block (body : List Statement)
  | variable (declarations : List Declaration)
  | ifThen (test : Expr) (consequent : Statement)
  | ifElse (test : Expr) (consequent alternate : Statement)
  | whileLoop (test : Expr) (body : Statement)
  | doWhile (body : Statement) (test : Expr)
  | forLoop (init : Option ForInit) (test update : Option Expr) (body : Statement)
  | function (name : String) (params : List String) (body : List Statement)
  | return (argument : Option Expr)
  | class (name : String) (superclass : Option String) (body : List Statement)

structure Program where
  body : List Statement

def Expr.kind : Expr → Kind
  | .identifier _ => .token .identifier
  | .number _ => .node .numericLiteral
  | .string _ => .node .stringLiteral
  | .boolean _ => .node .booleanLiteral
  | .null => .node .nullLiteral
  | .assign .. | .assignMember .. => .node .assignmentExpression
  | .logical .. => .node .logicalExpression
  | .binary .. => .node .binaryExpression
  | .unary .. => .node .unaryExpression
  | .member .. => .node .memberExpression
  | .call .. => .node .callExpression
  | .new .. => .node .newExpression
  | .this => .node .thisExpression
  | .super => .node .super

def Statement.kind : Statement → NodeKind
  | .expression _ => .expressionStatement
  | .empty => .emptyStatement
  | .block _ => .blockStatement
  | .variable _ => .variableStatement
  | .ifThen .. | .ifElse .. => .ifStatement
  | .whileLoop .. => .whileStatement
  | .doWhile .. => .doWhileStatement
  | .forLoop .. => .forStatement
  | .function .. => .functionDeclaration
  | .return _ => .returnStatement
  | .class .. => .classDeclaration

end LetterLang

/-!
# Kinds of tokens and nodes

A token has a kind: a delimiter or keyword of its own, or a class such as numbers or additive
operators. A node of the tree has a kind too. An identifier is the one kind that is both, so the
kind of an identifier expression is its token's. `Kind.all` lists every kind in a fixed order.
-/

namespace LetterLang

inductive Delimiter where
  | semicolon | openBrace | closeBrace | openParen | closeParen | comma | dot
  | openBracket | closeBracket
deriving DecidableEq, Repr

namespace Delimiter

def all : List Delimiter :=
  [.semicolon, .openBrace, .closeBrace, .openParen, .closeParen, .comma, .dot, .openBracket,
    .closeBracket]

def char : Delimiter → Char
  | .semicolon => ';'
  | .openBrace => '{'
  | .closeBrace => '}'
  | .openParen => '('
  | .closeParen => ')'
  | .comma => ','
  | .dot => '.'
  | .openBracket => '['
  | .closeBracket => ']'

def text (d : Delimiter) : String :=
  d.char.toString

end Delimiter

inductive Keyword where
  | letWord | ifWord | elseWord | trueWord | falseWord | nullWord | whileWord | doWord | forWord
  | defWord | returnWord | classWord | extendsWord | superWord | newWord | thisWord
deriving DecidableEq, Repr

namespace Keyword

/-- The reserved words in the order in which the scanner tries them. -/
def all : List Keyword :=
  [.letWord, .ifWord, .elseWord, .trueWord, .falseWord, .nullWord, .whileWord, .doWord, .forWord,
    .defWord, .returnWord, .classWord, .extendsWord, .superWord, .newWord, .thisWord]

def text : Keyword → String
  | .letWord => "let"
  | .ifWord => "if"
  | .elseWord => "else"
  | .trueWord => "true"
  | .falseWord => "false"
  | .nullWord => "null"
  | .whileWord => "while"
  | .doWord => "do"
  | .forWord => "for"
  | .defWord => "def"
  | .returnWord => "return"
  | .classWord => "class"
  | .extendsWord => "extends"
  | .superWord => "super"
  | .newWord => "new"
  | .thisWord => "this"

end Keyword

inductive TokenKind where
  | endOfInput
  | number
  | string
  | delimiter (d : Delimiter)
  | keyword (k : Keyword)
  | identifier
  | equality
  | simpleAssign
  | complexAssign
  | additive
  | multiplicative
  | relational
  | logicalAnd
  | logicalOr
  | logicalNot
deriving DecidableEq, Repr

namespace TokenKind

/-- Every token kind, end of input first. -/
def all : List TokenKind :=
  [.endOfInput, .number, .string] ++ Delimiter.all.map .delimiter ++ Keyword.all.map .keyword ++
    [.identifier, .equality, .simpleAssign, .complexAssign, .additive, .multiplicative,
      .relational, .logicalAnd, .logicalOr, .logicalNot]

def isAssignment : TokenKind → Bool
  | .simpleAssign | .complexAssign => true
  | _ => false

def isLiteral : TokenKind → Bool
  | .number | .string => true
  | .keyword .trueWord | .keyword .falseWord | .keyword .nullWord => true
  | _ => false

/-- Delimiters and keywords are named by their text, the other kinds by a word in capitals. -/
def name : TokenKind → String
  | .endOfInput => "EOF"
  | .number => "NUMBER"
  | .string => "STRING"
  | .delimiter d => d.text
  | .keyword k => k.text
  | .identifier => "IDENTIFIER"
  | .equality => "EQUALITY_OPERATOR"
  | .simpleAssign => "SIMPLE_ASSIGN"
  | .complexAssign => "COMPLEX_ASSIGN"
  | .additive => "ADDITIVE_OPERATOR"
  | .multiplicative => "MULTIPLICATIVE_OPERATOR"
  | .relational => "RELATIONAL_OPERATOR"
  | .logicalAnd => "LOGICAL_AND"
  | .logicalOr => "LOGICAL_OR"
  | .logicalNot => "LOGICAL_NOT"

end TokenKind

/-- What a node of the tree is, identifiers apart. -/
inductive NodeKind where
  | program
  | expressionStatement | emptyStatement | blockStatement | variableStatement
  | variableDeclaration | ifStatement | whileStatement | doWhileStatement | forStatement
  | functionDeclaration | returnStatement | classDeclaration
  | numericLiteral | stringLiteral | booleanLiteral | nullLiteral | assignmentExpression
  | logicalExpression | binaryExpression | unaryExpression | memberExpression | callExpression
  | newExpression | thisExpression | super
deriving DecidableEq, Repr

namespace NodeKind

def all : List NodeKind :=
  [.program, .expressionStatement, .emptyStatement, .blockStatement, .variableStatement,
    .variableDeclaration, .ifStatement, .whileStatement, .doWhileStatement, .forStatement,
    .functionDeclaration, .returnStatement, .classDeclaration, .numericLiteral, .stringLiteral,
    .booleanLiteral, .nullLiteral, .assignmentExpression, .logicalExpression, .binaryExpression,
    .unaryExpression, .memberExpression, .callExpression, .newExpression, .thisExpression, .super]

def name : NodeKind → String
  | .program => "Program"
  | .expressionStatement => "ExpressionStatement"
  | .emptyStatement => "EmptyStatement"
  | .blockStatement => "BlockStatement"
  | .variableStatement => "VariableStatement"
  | .variableDeclaration => "VariableDeclaration"
  | .ifStatement => "IfStatement"
  | .whileStatement => "WhileStatement"
  | .doWhileStatement => "DoWhileStatement"
  | .forStatement => "ForStatement"
  | .functionDeclaration => "FunctionDeclaration"
  | .returnStatement => "ReturnStatement"
  | .classDeclaration => "ClassDeclaration"
  | .numericLiteral => "NumericLiteral"
  | .stringLiteral => "StringLiteral"
  | .booleanLiteral => "BooleanLiteral"
  | .nullLiteral => "NullLiteral"
  | .assignmentExpression => "AssignmentExpression"
  | .logicalExpression => "LogicalExpression"
  | .binaryExpression => "BinaryExpression"
  | .unaryExpression => "UnaryExpression"
  | .memberExpression => "MemberExpression"
  | .callExpression => "CallExpression"
  | .newExpression => "NewExpression"
  | .thisExpression => "ThisExpression"
  | .super => "Super"

end NodeKind

inductive Kind where
  | token (kind : TokenKind)
  | node (kind : NodeKind)
deriving DecidableEq, Repr

namespace Kind

/-- Every kind: the tokens, then the nodes. -/
def all : List Kind :=
  TokenKind.all.map .token ++ NodeKind.all.map .node

def ordinal (k : Kind) : Nat :=
  all.idxOf k

/-- The name of a kind in messages, token lists and trees. -/
def name : Kind → String
  | .token t => t.name
  | .node n => n.name

def delimiter? : Kind → Option Delimiter
  | .token (.delimiter d) => some d
  | _ => none

def keyword? : Kind → Option Keyword
  | .token (.keyword k) => some k
  | _ => none

def isLiteral : Kind → Bool
  | .token t => t.isLiteral
  | .node _ => false

def isAssignment : Kind → Bool
  | .token t => t.isAssignment
  | .node _ => false

end Kind

end LetterLang

import LetterLang.Number.Format
import LetterLang.Tree

/-!
# Trees as source text

A tree is printed by laying it out as a sequence of pieces, tokens and the blanks between them,
and joining their texts. An operand is put in parentheses only where it binds less tightly than
its place calls for, so that the text reads back as the same tree.
-/

namespace LetterLang

structure PrintOptions where
  /-- Written once for each level of nesting at the start of a line. -/
  indent : String := "    "
  newline : String := "\n"
  /-- Whether a text that is not empty ends with a newline. -/
  trailingNewline : Bool := true

/-- How tightly an expression binds, from loosest to tightest. -/
inductive Precedence where
  | assignment | logicalOr | logicalAnd | equality | relational | additive | multiplicative
  | unary | call | member | primary
deriving DecidableEq, Repr

namespace Precedence

def rank : Precedence → Nat
  | .assignment => 0
  | .logicalOr => 1
  | .logicalAnd => 2
  | .equality => 3
  | .relational => 4
  | .additive => 5
  | .multiplicative => 6
  | .unary => 7
  | .call => 8
  | .member => 9
  | .primary => 10

/-- The next tighter precedence; the tightest is its own. -/
def tighter : Precedence → Precedence
  | .assignment => .logicalOr
  | .logicalOr => .logicalAnd
  | .logicalAnd => .equality
  | .equality => .relational
  | .relational => .additive
  | .additive => .multiplicative
  | .multiplicative => .unary
  | .unary => .call
  | .call => .member
  | .member | .primary => .primary

end Precedence

def BinaryOp.precedence : BinaryOp → Precedence
  | .equal | .notEqual => .equality
  | .greater | .greaterEqual | .less | .lessEqual => .relational
  | .add | .subtract => .additive
  | .multiply | .divide => .multiplicative

def LogicalOp.precedence : LogicalOp → Precedence
  | .or => .logicalOr
  | .and => .logicalAnd

def Expr.precedence : Expr → Precedence
  | .assign .. | .assignMember .. => .assignment
  | .logical op .. => op.precedence
  | .binary op .. => op.precedence
  | .unary .. => .unary
  | .call .. => .call
  | .member .. | .new .. => .member
  | .identifier _ | .number _ | .string _ | .boolean _ | .null | .this | .super => .primary

/-- A part of a printed text: a token, or blanks. -/
inductive Piece where
  | token (kind : TokenKind) (text : String)
  | blank (text : String)
deriving DecidableEq, Repr

namespace Piece

def text : Piece → String
  | .token _ text => text
  | .blank text => text

def delimiter (d : Delimiter) : Piece :=
  .token (.delimiter d) d.text

def keyword (k : Keyword) : Piece :=
  .token (.keyword k) k.text

def identifier (name : String) : Piece :=
  .token .identifier name

def space : Piece :=
  .blank " "

/-- The pieces of a list, with a comma and a space between two of them. -/
def separated : List (List Piece) → List Piece
  | [] => []
  | [ps] => ps
  | ps :: rest => ps ++ [delimiter .comma, space] ++ separated rest

def parenthesized (ps : List Piece) : List Piece :=
  delimiter .openParen :: ps ++ [delimiter .closeParen]

/-- How a member is reached: its expression in brackets, or its name after a point. -/
def access (computed : Bool) (property : List Piece) : List Piece :=
  if computed then delimiter .openBracket :: property ++ [delimiter .closeBracket]
  else delimiter .dot :: property

end Piece

/-- Whole numbers are printed without a point, and no number has an exponent. -/
def Expr.numberFormat : NumberFormat where
  tie := .up
  positional := fun _ => true
  wholeSuffix := ""

def Binary64.print : Binary64 → String
  | .nan => "NaN"
  | .infinite negative => if negative then "-inf" else "inf"
  | .finite negative m => (if negative then "-" else "") ++ Expr.numberFormat.write m

/-- A string is printed in double quotes unless it holds one. -/
def Expr.stringText (value : String) : String :=
  let quote := if value.toList.contains '"' then "'" else "\""
  quote ++ value ++ quote

def AssignOp.piece (op : AssignOp) : Piece :=
  .token (if op = .assign then .simpleAssign else .complexAssign) op.symbol

def LogicalOp.piece : LogicalOp → Piece
  | .and => .token .logicalAnd LogicalOp.and.symbol
  | .or => .token .logicalOr LogicalOp.or.symbol

def BinaryOp.piece (op : BinaryOp) : Piece :=
  let kind : TokenKind := match op with
    | .equal | .notEqual => .equality
    | .greater | .greaterEqual | .less | .lessEqual => .relational
    | .add | .subtract => .additive
    | .multiply | .divide => .multiplicative
  .token kind op.symbol

def UnaryOp.piece : UnaryOp → Piece
  | .plus => .token .additive UnaryOp.plus.symbol
  | .minus => .token .additive UnaryOp.minus.symbol
  | .not => .token .logicalNot UnaryOp.not.symbol

/-- The pieces `inner` of the expression `e`, in parentheses if it binds less tightly than `min`. -/
def Expr.guardedBy (e : Expr) (min : Precedence) (inner : List Piece) : List Piece :=
  if e.precedence.rank < min.rank then Piece.parenthesized inner else inner

mutual

/-- The pieces of an expression, without parentheses around it. -/
def Expr.pieces : Expr → List Piece
  | .identifier name => [.identifier name]
  | .number value => [.token .number value.print]
  | .string value => [.token .string (Expr.stringText value)]
  | .boolean true => [.keyword .trueWord]
  | .boolean false => [.keyword .falseWord]
  | .null => [.keyword .nullWord]
  | .this => [.keyword .thisWord]
  | .super => [.keyword .superWord]
  | .assign op name value =>
    [.identifier name, .space, op.piece, .space] ++ value.guardedBy .assignment value.pieces
  | .assignMember op object property computed value =>
    object.guardedBy .member object.pieces ++ Piece.access computed property.pieces ++
      [.space, op.piece, .space] ++ value.guardedBy .assignment value.pieces
  | .logical op left right =>
    left.guardedBy op.precedence left.pieces ++ [.space, op.piece, .space] ++
      right.guardedBy op.precedence.tighter right.pieces
  | .binary op left right =>
    left.guardedBy op.precedence left.pieces ++ [.space, op.piece, .space] ++
      right.guardedBy op.precedence.tighter right.pieces
  | .unary op argument => op.piece :: argument.guardedBy .unary argument.pieces
  | .member object property computed =>
    object.guardedBy .member object.pieces ++ Piece.access computed property.pieces
  | .call callee arguments =>
    callee.guardedBy .call callee.pieces ++
      Piece.parenthesized (Piece.separated (Expr.listPieces arguments))
  | .new callee arguments =>
    [.keyword .newWord, .space] ++ callee.guardedBy .member callee.pieces ++
      Piece.parenthesized (Piece.separated (Expr.listPieces arguments))

def Expr.listPieces : List Expr → List (List Piece)
  | [] => []
  | e :: es => e.pieces :: Expr.listPieces es

end

def Declaration.pieces (d : Declaration) : List Piece :=
  .identifier d.name :: match d.init with
    | some e => [.space, .token .simpleAssign AssignOp.assign.symbol, .space] ++ e.pieces
    | none => []

def Declaration.listPieces (ds : List Declaration) : List Piece :=
  [.keyword .letWord, .space] ++ Piece.separated (ds.map pieces)

def ForInit.pieces : ForInit → List Piece
  | .declarations ds => Declaration.listPieces ds
  | .expression e => e.pieces

/-- An expression that may be missing, with a space before it. -/
def Expr.optionPieces : Option Expr → List Piece
  | some e => .space :: e.pieces
  | none => []

/-- The start of a line at a level of nesting. -/
def PrintOptions.line (options : PrintOptions) (level : Nat) : Piece :=
  .blank (options.newline ++ String.join (List.replicate level options.indent))

/-- Statements in braces, given by the lines that they take. -/
def PrintOptions.block (options : PrintOptions) (level : Nat) (lines : List Piece) : List Piece :=
  if lines.isEmpty then [.delimiter .openBrace, .delimiter .closeBrace]
  else .delimiter .openBrace :: lines ++ [options.line level, .delimiter .closeBrace]

/-- The heading of a statement that hangs on a test: a keyword and the test in parentheses. -/
def Expr.headPieces (keyword : Keyword) (test : Expr) : List Piece :=
  [.keyword keyword, .space] ++ Piece.parenthesized test.pieces

mutual

def Statement.pieces (options : PrintOptions) (level : Nat) : Statement → List Piece
  | .expression e => e.pieces ++ [.delimiter .semicolon]
  | .empty => [.delimiter .semicolon]
  | .block body => options.block level (Statement.linesPieces options (level + 1) body)
  | .variable declarations => Declaration.listPieces declarations ++ [.delimiter .semicolon]
  | .ifThen test consequent =>
    test.headPieces .ifWord ++ .space :: consequent.pieces options level
  | .ifElse test consequent alternate =>
    test.headPieces .ifWord ++ .space :: consequent.pieces options level ++
      [.space, .keyword .elseWord, .space] ++ alternate.pieces options level
  | .whileLoop test body => test.headPieces .whileWord ++ .space :: body.pieces options level
  | .doWhile body test =>
    [.keyword .doWord, .space] ++ body.pieces options level ++ .space ::
      test.headPieces .whileWord ++ [.delimiter .semicolon]
  | .forLoop init test update body =>
    [.keyword .forWord, .space] ++
      Piece.parenthesized
        ((init.map ForInit.pieces).getD [] ++ .delimiter .semicolon :: Expr.optionPieces test ++
          .delimiter .semicolon :: Expr.optionPieces update) ++
      .space :: body.pieces options level
  | .function name params body =>
    [.keyword .defWord, .space, .identifier name] ++
      Piece.parenthesized (Piece.separated (params.map fun p => [.identifier p])) ++
      .space :: options.block level (Statement.linesPieces options (level + 1) body)
  | .return argument =>
    .keyword .returnWord :: Expr.optionPieces argument ++ [.delimiter .semicolon]
  | .class name superclass body =>
    [.keyword .classWord, .space, .identifier name] ++
      (match superclass with
        | some parent => [.space, .keyword .extendsWord, .space, .identifier parent]
        | none => []) ++
      .space :: options.block level (Statement.linesPieces options (level + 1) body)

/-- Statements, each on a new line. -/
def Statement.linesPieces (options : PrintOptions) (level : Nat) : List Statement → List Piece
  | [] => []
  | s :: ss =>
    options.line level :: s.pieces options level ++ Statement.linesPieces options level ss

end

/-- The pieces of a program: its statements, with a newline between two of them. -/
def Program.pieces (options : PrintOptions) (p : Program) : List Piece :=
  match p.body with
  | [] => []
  | s :: ss => s.pieces options 0 ++ Statement.linesPieces options 0 ss

def Program.print (p : Program) (options : PrintOptions) : String :=
  let text := String.join ((p.pieces options).map Piece.text)
  if options.trailingNewline && !text.isEmpty then text ++ options.newline else text

end LetterLang

import LetterLang.Json
import LetterLang.Tree

/-!
# Trees as JSON

Every node is a JSON object whose first member, `type`, names the kind of node. The other members
are the parts of the node in a fixed order; a part that is missing is `null`.
-/

namespace LetterLang

/-- The object of a node: its type and its parts. -/
def Json.node (kind : NodeKind) (parts : List (String × Json)) : Json :=
  .object (("type", .string kind.name) :: parts)

def Json.identifier (name : String) : Json :=
  .object [("type", .string "Identifier"), ("name", .string name)]

mutual

def Expr.toJson : Expr → Json
  | .identifier name => .identifier name
  | .number value => .node .numericLiteral [("value", .ofNumber value)]
  | .string value => .node .stringLiteral [("value", .string value)]
  | .boolean value => .node .booleanLiteral [("value", .boolean value)]
  | .null => .node .nullLiteral []
  | .assign op name value =>
    .node .assignmentExpression
      [("operator", .string op.symbol), ("left", .identifier name), ("right", value.toJson)]
  | .assignMember op object property computed value =>
    .node .assignmentExpression
      [("operator", .string op.symbol),
        ("left", .node .memberExpression
          [("object", object.toJson), ("property", property.toJson),
            ("computed", .boolean computed)]),
        ("right", value.toJson)]
  | .logical op left right =>
    .node .logicalExpression
      [("operator", .string op.symbol), ("left", left.toJson), ("right", right.toJson)]
  | .binary op left right =>
    .node .binaryExpression
      [("operator", .string op.symbol), ("left", left.toJson), ("right", right.toJson)]
  | .unary op argument =>
    .node .unaryExpression [("operator", .string op.symbol), ("argument", argument.toJson)]
  | .member object property computed =>
    .node .memberExpression
      [("object", object.toJson), ("property", property.toJson), ("computed", .boolean computed)]
  | .call callee arguments =>
    .node .callExpression
      [("callee", callee.toJson), ("arguments", .array (Expr.listToJson arguments))]
  | .new callee arguments =>
    .node .newExpression
      [("callee", callee.toJson), ("arguments", .array (Expr.listToJson arguments))]
  | .this => .node .thisExpression []
  | .super => .node .super []

def Expr.listToJson : List Expr → List Json
  | [] => []
  | e :: es => e.toJson :: Expr.listToJson es

end

def Expr.optionToJson : Option Expr → Json
  | some e => e.toJson
  | none => .null

def Declaration.toJson (d : Declaration) : Json :=
  .node .variableDeclaration
    [("id", .identifier d.name), ("init", Expr.optionToJson d.init)]

def Declaration.listToJson (ds : List Declaration) : Json :=
  .node .variableStatement [("declarations", .array (ds.map toJson))]

def ForInit.optionToJson : Option ForInit → Json
  | some (.declarations ds) => Declaration.listToJson ds
  | some (.expression e) => e.toJson
  | none => .null

mutual

def Statement.toJson : Statement → Json
  | .expression e => .node .expressionStatement [("expression", e.toJson)]
  | .empty => .node .emptyStatement []
  | .block body => .node .blockStatement [("body", .array (Statement.listToJson body))]
  | .variable declarations => Declaration.listToJson declarations
  | .ifThen test consequent =>
    .node .ifStatement
      [("test", test.toJson), ("consequent", consequent.toJson), ("alternate", .null)]
  | .ifElse test consequent alternate =>
    .node .ifStatement
      [("test", test.toJson), ("consequent", consequent.toJson), ("alternate", alternate.toJson)]
  | .whileLoop test body =>
    .node .whileStatement [("test", test.toJson), ("body", body.toJson)]
  | .doWhile body test =>
    .node .doWhileStatement [("body", body.toJson), ("test", test.toJson)]
  | .forLoop init test update body =>
    .node .forStatement
      [("init", ForInit.optionToJson init), ("test", Expr.optionToJson test),
        ("update", Expr.optionToJson update), ("body", body.toJson)]
  | .function name params body =>
    .node .functionDeclaration
      [("name", .identifier name), ("params", .array (params.map .identifier)),
        ("body", .node .blockStatement [("body", .array (Statement.listToJson body))])]
  | .return argument => .node .returnStatement [("argument", Expr.optionToJson argument)]
  | .class name superclass body =>
    .node .classDeclaration
      [("id", .identifier name), ("superClass", (superclass.map Json.identifier).getD .null),
        ("body", .node .blockStatement [("body", .array (Statement.listToJson body))])]

def Statement.listToJson : List Statement → List Json
  | [] => []
  | s :: ss => s.toJson :: Statement.listToJson ss

end

def Program.toJson (p : Program) : Json :=
  .node .program [("body", .array (Statement.listToJson p.body))]

end LetterLang

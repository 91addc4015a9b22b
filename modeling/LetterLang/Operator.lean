/-!
# Operators

The four families of operators of the language. Each family has its symbols; reading a symbol is
the search for the operator of the family that is written so.
-/

namespace LetterLang

inductive AssignOp where
  | assign | add | subtract | multiply | divide
deriving DecidableEq, Repr

namespace AssignOp

def all : List AssignOp :=
  [.assign, .add, .subtract, .multiply, .divide]

def symbol : AssignOp → String
  | .assign => "="
  | .add => "+="
  | .subtract => "-="
  | .multiply => "*="
  | .divide => "/="

def ofSymbol? (s : String) : Option AssignOp :=
  all.find? (·.symbol = s)

end AssignOp

/-- The operators that may leave their right operand unevaluated. -/
inductive LogicalOp where
  | and | or
deriving DecidableEq, Repr

namespace LogicalOp

def all : List LogicalOp :=
  [.and, .or]

def symbol : LogicalOp → String
  | .and => "&&"
  | .or => "||"

def ofSymbol? (s : String) : Option LogicalOp :=
  all.find? (·.symbol = s)

end LogicalOp

inductive BinaryOp where
  | equal | notEqual | greater | greaterEqual | less | lessEqual
  | add | subtract | multiply | divide
deriving DecidableEq, Repr

namespace BinaryOp

def all : List BinaryOp :=
  [.equal, .notEqual, .greater, .greaterEqual, .less, .lessEqual, .add, .subtract, .multiply,
    .divide]

def symbol : BinaryOp → String
  | .equal => "=="
  | .notEqual => "!="
  | .greater => ">"
  | .greaterEqual => ">="
  | .less => "<"
  | .lessEqual => "<="
  | .add => "+"
  | .subtract => "-"
  | .multiply => "*"
  | .divide => "/"

def ofSymbol? (s : String) : Option BinaryOp :=
  all.find? (·.symbol = s)

end BinaryOp

inductive UnaryOp where
  | plus | minus | not
deriving DecidableEq, Repr

namespace UnaryOp

def all : List UnaryOp :=
  [.plus, .minus, .not]

def symbol : UnaryOp → String
  | .plus => "+"
  | .minus => "-"
  | .not => "!"

def ofSymbol? (s : String) : Option UnaryOp :=
  all.find? (·.symbol = s)

end UnaryOp

theorem AssignOp.ofSymbol?_symbol (op : AssignOp) : ofSymbol? op.symbol = some op := by
  cases op <;> decide

theorem LogicalOp.ofSymbol?_symbol (op : LogicalOp) : ofSymbol? op.symbol = some op := by
  cases op <;> decide

theorem BinaryOp.ofSymbol?_symbol (op : BinaryOp) : ofSymbol? op.symbol = some op := by
  cases op <;> decide

theorem UnaryOp.ofSymbol?_symbol (op : UnaryOp) : ofSymbol? op.symbol = some op := by
  cases op <;> decide

end LetterLang

import LetterLang.Json
import LetterLang.LineMap
import LetterLang.Text.Quoted

/-!
# Reading JSON: cursor and errors

A JSON text is read from left to right, and the first problem met ends the reading. A problem has
a cause and the byte offset at which it was noticed. Causes fall into three categories: the text
ends too early, the text is not JSON, or the JSON is not of the shape that was asked for.
-/

namespace LetterLang

/-- A JSON value that is not of the type asked for. -/
inductive JsonFound where
  | null
  | boolean (value : Bool)
  | natural (value : Nat)
  | negative (value : Nat)
  | decimal (minus : Bool) (magnitude : Magnitude)
  | string (value : String)
  | array
  | object

inductive JsonCategory where
  | endOfText | notJson | wrongShape
deriving DecidableEq, Repr

inductive JsonProblem where
  | endInValue | endInList | endInObject | endInString
  | colonExpected | listCommaExpected | objectCommaExpected
  | wordExpected | valueExpected | invalidEscape | invalidNumber | numberOutOfRange
  | controlCharacter | keyNotString | loneSurrogate | unfinishedSurrogate
  | trailingComma | trailingCharacters
  | wrongType (found : JsonFound) (expected : String)
  | wrongValue (found : JsonFound) (expected : String)
  | duplicateKey (key : String)

/-- A problem and the byte offset at which it was noticed. -/
structure JsonError where
  problem : JsonProblem
  offset : Nat

def JsonFound.text : JsonFound → String
  | .null => "null"
  | .boolean value => if value then "boolean `true`" else "boolean `false`"
  | .natural value => s!"integer `{value}`"
  | .negative value => s!"integer `-{value}`"
  | .decimal minus magnitude =>
    "floating point `" ++ (Json.decimal minus magnitude).scalarText ++ "`"
  | .string value => "string " ++ Text.quoted value
  | .array => "sequence"
  | .object => "map"

def JsonProblem.message : JsonProblem → String
  | .endInValue => "EOF while parsing a value"
  | .endInList => "EOF while parsing a list"
  | .endInObject => "EOF while parsing an object"
  | .endInString => "EOF while parsing a string"
  | .colonExpected => "expected `:`"
  | .listCommaExpected => "expected `,` or `]`"
  | .objectCommaExpected => "expected `,` or `" ++ '}'.toString ++ "`"
  | .wordExpected => "expected ident"
  | .valueExpected => "expected value"
  | .invalidEscape => "invalid escape"
  | .invalidNumber => "invalid number"
  | .numberOutOfRange => "number out of range"
  | .controlCharacter => "control character (\\u0000-\\u001F) found while parsing a string"
  | .keyNotString => "key must be a string"
  | .loneSurrogate => "lone leading surrogate in hex escape"
  | .unfinishedSurrogate => "unexpected end of hex escape"
  | .trailingComma => "trailing comma"
  | .trailingCharacters => "trailing characters"
  | .wrongType found expected => s!"invalid type: {found.text}, expected {expected}"
  | .wrongValue found expected => s!"invalid value: {found.text}, expected {expected}"
  | .duplicateKey key => s!"duplicate field `{key}`"

def JsonProblem.category : JsonProblem → JsonCategory
  | .endInValue | .endInList | .endInObject | .endInString => .endOfText
  | .wrongType .. | .wrongValue .. | .duplicateKey _ => .wrongShape
  | _ => .notJson

/-- A problem in a text, with the line and the column, in bytes, at which it was noticed. -/
def JsonError.message (e : JsonError) (text : String) : String :=
  let place := (LineMap.ofText text).locate (UInt32.ofNat e.offset)
  s!"{e.problem.message} at line {place.line.toNat + 1} column {place.character.toNat}"

/-- A place in a JSON text: the characters not yet read, and the byte offset of the first. -/
structure JsonCursor where
  rest : List Char
  offset : Nat

/-- A reading step: the value read and the place after it, or an error. -/
abbrev JsonReader (α : Type) := JsonCursor → Except JsonError (α × JsonCursor)

namespace JsonCursor

def ofText (text : String) : JsonCursor :=
  ⟨text.toList, 0⟩

def advance (c : JsonCursor) (n : Nat) : JsonCursor :=
  ⟨c.rest.drop n, c.offset + Text.byteLength (c.rest.take n)⟩

def isBlank (c : Char) : Bool :=
  c = ' ' || c = '\t' || c = '\n' || c = '\r'

def skipBlanks (c : JsonCursor) : JsonCursor :=
  c.advance (c.rest.takeWhile isBlank).length

/-- A problem noticed before the next byte. -/
def error {α : Type} (c : JsonCursor) (problem : JsonProblem) : Except JsonError α :=
  .error ⟨problem, c.offset⟩

/-- A problem noticed after the next byte, if there is one. -/
def errorAfter {α : Type} (c : JsonCursor) (problem : JsonProblem) : Except JsonError α :=
  .error ⟨problem, if c.rest.isEmpty then c.offset else c.offset + 1⟩

end JsonCursor

end LetterLang

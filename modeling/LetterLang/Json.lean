import LetterLang.Number.Format

/-!
# JSON

JSON values with the members of an object in order, and their two written forms: compact on one
line, and pretty with one element or member to a line.
-/

namespace LetterLang

attribute [local instance] natPow

/-- A JSON value. A number is a natural number, or a finite binary64 number as its sign and
magnitude. -/
inductive Json where
  | null
  | boolean (value : Bool)
  | natural (value : Nat)
  | decimal (negative : Bool) (magnitude : Magnitude)
  | string (value : String)
  | array (elements : List Json)
  | object (members : List (String × Json))

namespace Json

/-- Numbers that are not written as natural numbers keep a digit after the point, and have an
exponent from 10¹⁶ on and below 10⁻⁵. -/
def numberFormat : NumberFormat where
  tie := .toEven
  positional := fun exponent => -5 ≤ exponent && exponent < 16
  wholeSuffix := ".0"

/-- A binary64 number as JSON: exactly, if it is a whole number from 0 to below 2⁶⁴; there is no
JSON for what is not finite. -/
def ofNumber : Binary64 → Json
  | .finite negative m =>
    match m.toNat? with
    | some n => if n < 2 ^ (64 : Nat) ∧ (negative = false ∨ n = 0) then .natural n else .decimal negative m
    | none => .decimal negative m
  | _ => .null

def hexDigit (n : Nat) : Char :=
  Nat.digitChar n

/-- One character of a string. Controls are escaped; all other characters stand for themselves. -/
def escapeChar (c : Char) : List Char :=
  if c = '"' then ['\\', '"']
  else if c = '\\' then ['\\', '\\']
  else if c = '\x08' then ['\\', 'b']
  else if c = '\x0c' then ['\\', 'f']
  else if c = '\n' then ['\\', 'n']
  else if c = '\r' then ['\\', 'r']
  else if c = '\t' then ['\\', 't']
  else if c.toNat < 0x20 then
    ['\\', 'u', '0', '0', hexDigit (c.toNat / 16), hexDigit (c.toNat % 16)]
  else [c]

def quote (s : String) : String :=
  String.ofList ('"' :: s.toList.flatMap escapeChar ++ ['"'])

/-- The text of a number, a word or a string; empty for arrays and objects. -/
def scalarText : Json → String
  | .null => "null"
  | .boolean true => "true"
  | .boolean false => "false"
  | .natural n => NumberFormat.digitsText n
  | .decimal negative m => (if negative then "-" else "") ++ numberFormat.write m
  | .string s => quote s
  | .array _ | .object _ => ""

/-- The start of a line at a depth of nesting: two blanks for each level. -/
def newline (depth : Nat) : String :=
  String.ofList ('\n' :: List.replicate (2 * depth) ' ')

def bracketed (opening closing : Char) (text : String) : String :=
  opening.toString ++ text ++ closing.toString

mutual

/-- A value without any blanks. -/
def compact : Json → String
  | .null => scalarText .null
  | .boolean value => scalarText (.boolean value)
  | .natural value => scalarText (.natural value)
  | .decimal negative magnitude => scalarText (.decimal negative magnitude)
  | .string value => scalarText (.string value)
  | .array elements => bracketed '[' ']' (",".intercalate (compactElements elements))
  | .object members => bracketed '{' '}' (",".intercalate (compactMembers members))

def compactElements : List Json → List String
  | [] => []
  | v :: vs => compact v :: compactElements vs

def compactMembers : List (String × Json) → List String
  | [] => []
  | m :: ms => compactMember m :: compactMembers ms

def compactMember : String × Json → String
  | (key, v) => quote key ++ ":" ++ compact v

end

/-- The lines of the elements or members of a value at a depth of nesting; nothing if it has
none. -/
def prettyBody (depth : Nat) (lines : List String) : String :=
  if lines.isEmpty then "" else ",".intercalate lines ++ newline depth

mutual

/-- A value with each element and member on a line of its own. -/
def prettyAt (depth : Nat) : Json → String
  | .null => scalarText .null
  | .boolean value => scalarText (.boolean value)
  | .natural value => scalarText (.natural value)
  | .decimal negative magnitude => scalarText (.decimal negative magnitude)
  | .string value => scalarText (.string value)
  | .array elements => bracketed '[' ']' (prettyBody depth (prettyElements (depth + 1) elements))
  | .object members => bracketed '{' '}' (prettyBody depth (prettyMembers (depth + 1) members))

def prettyElements (depth : Nat) : List Json → List String
  | [] => []
  | v :: vs => (newline depth ++ prettyAt depth v) :: prettyElements depth vs

def prettyMembers (depth : Nat) : List (String × Json) → List String
  | [] => []
  | m :: ms => (newline depth ++ prettyMember depth m) :: prettyMembers depth ms

def prettyMember (depth : Nat) : String × Json → String
  | (key, v) => quote key ++ ": " ++ prettyAt depth v

end

def pretty (v : Json) : String :=
  v.prettyAt 0

end Json

end LetterLang

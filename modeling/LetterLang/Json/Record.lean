import LetterLang.Json.Skip

/-!
# Reading JSON: typed values and records

Readers for values of a known type. A value of another type is an error as soon as it is known
what the value is.

A record is read from an object or from an array. In an object, the members named like a field
give the fields, each at most once, and the other members are skipped. In an array, the elements
give the fields in order. A field that is not given keeps its default.
-/

namespace LetterLang.JsonReader

open JsonCursor

variable {α σ : Type}

/-- Fails at a value that is not of the type expected, after reading what tells its type. -/
def mismatch (expected : String) (c : JsonCursor) : Except JsonError α := do
  match c.rest with
  | 'n' :: _ => (← word ['u', 'l', 'l'] (c.advance 1)).error (.wrongType .null expected)
  | 't' :: _ => (← word ['r', 'u', 'e'] (c.advance 1)).error (.wrongType (.boolean true) expected)
  | 'f' :: _ =>
    (← word ['a', 'l', 's', 'e'] (c.advance 1)).error (.wrongType (.boolean false) expected)
  | '-' :: _ =>
    let (found, c) ← number true (c.advance 1)
    c.error (.wrongType found expected)
  | '"' :: _ =>
    let (found, c) ← string (c.advance 1)
    c.error (.wrongType (.string found) expected)
  | '[' :: _ => c.error (.wrongType .array expected)
  | '{' :: _ => c.error (.wrongType .object expected)
  | _ =>
    if startsWithDigit c then
      let (found, c) ← number false c
      c.error (.wrongType found expected)
    else c.errorAfter .valueExpected

def boolean : JsonReader Bool := fun c => do
  let c := c.skipBlanks
  match c.rest with
  | [] => c.errorAfter .endInValue
  | 't' :: _ => return (true, ← word ['r', 'u', 'e'] (c.advance 1))
  | 'f' :: _ => return (false, ← word ['a', 'l', 's', 'e'] (c.advance 1))
  | _ => mismatch "a boolean" c

/-- Reads `null` as no value, and anything else as a value. -/
def optional (read : JsonReader α) : JsonReader (Option α) := fun c => do
  let c := c.skipBlanks
  match c.rest with
  | 'n' :: _ => return (none, ← word ['u', 'l', 'l'] (c.advance 1))
  | _ =>
    let (a, c) ← read c
    return (some a, c)

/-- Reads a 32-bit word: a whole number without fraction and exponent. -/
def word32 : JsonReader UInt32 := fun c => do
  let c := c.skipBlanks
  let check : JsonFound × JsonCursor → Except JsonError (UInt32 × JsonCursor)
    | (.natural n, c) =>
      if n < UInt32.size then .ok (UInt32.ofNat n, c) else c.error (.wrongValue (.natural n) "u32")
    | (.negative n, c) => c.error (.wrongValue (.negative n) "u32")
    | (found, c) => c.error (.wrongType found "u32")
  match c.rest with
  | [] => c.errorAfter .endInValue
  | '-' :: _ => check (← number true (c.advance 1))
  | _ => if startsWithDigit c then check (← number false c) else mismatch "u32" c

/-- A field of a record: its name, and how to read it into a record. -/
structure Field (σ : Type) where
  name : String
  read : σ → JsonReader σ

structure Shape (σ : Type) where
  /-- What messages call a record of this shape. -/
  name : String
  defaults : σ
  fields : List (Field σ)

/-- Reads the end of an array whose fields have all been read. -/
def endOfArray (record : σ) : JsonReader σ := fun c =>
  let c := c.skipBlanks
  match c.rest with
  | [] => c.errorAfter .endInList
  | ']' :: _ => .ok (record, c.advance 1)
  | ',' :: _ =>
    let c := (c.advance 1).skipBlanks
    c.errorAfter (if c.rest.head? = some ']' then .trailingComma else .trailingCharacters)
  | _ => c.errorAfter .trailingCharacters

def elements (first : Bool) (record : σ) : List (Field σ) → JsonReader σ
  | [], c => endOfArray record c
  | field :: fields, c => do
    let c := c.skipBlanks
    match c.rest with
    | [] => c.errorAfter .endInList
    | ']' :: _ => endOfArray record c
    | x :: _ =>
      if first then
        let (record, c) ← field.read record c
        elements false record fields c
      else if x = ',' then
        let c := (c.advance 1).skipBlanks
        match c.rest with
        | [] => c.errorAfter .endInValue
        | ']' :: _ => c.errorAfter .trailingComma
        | _ =>
          let (record, c) ← field.read record c
          elements false record fields c
      else c.errorAfter .listCommaExpected

def colon (c : JsonCursor) : Except JsonError JsonCursor :=
  let c := c.skipBlanks
  match c.rest with
  | [] => c.errorAfter .endInObject
  | ':' :: _ => .ok (c.advance 1)
  | _ => c.errorAfter .colonExpected

/-- Fails at a key that was given before. The problem is noticed where the object goes on. -/
def duplicate (key : String) (c : JsonCursor) : Except JsonError α :=
  let c := c.skipBlanks
  let c := if c.rest.head? = some '}' then c.advance 1 else c
  c.error (.duplicateKey key)

/-- Reads the value of a member: into the field of its name, unless `seen` says that the field was
given before. Gives the record and the fields seen. -/
def memberValue (fields : List (Field σ)) (seen : List String) (record : σ) (key : String) :
    JsonReader (σ × List String) := fun c =>
  match fields.find? (·.name = key) with
  | none => do return ((record, seen), ← skipValue (← colon c))
  | some field =>
    if key ∈ seen then duplicate key c
    else do
      let (record, c) ← field.read record (← colon c)
      return ((record, key :: seen), c)

/-- Reads a record from the members of an object. `fuel` bounds the number of members. -/
def members (fields : List (Field σ)) (seen : List String) (first : Bool) (record : σ) :
    Nat → JsonReader σ
  | 0, c => c.error .endInObject
  | fuel + 1, c => do
    let next (c : JsonCursor) : Except JsonError (σ × JsonCursor) := do
      let (key, c) ← string (c.advance 1)
      let ((record, seen), c) ← memberValue fields seen record key c
      members fields seen false record fuel c
    let c := c.skipBlanks
    match c.rest with
    | [] => c.errorAfter .endInObject
    | '}' :: _ => return (record, c.advance 1)
    | x :: _ =>
      if first then if x = '"' then next c else c.errorAfter .keyNotString
      else if x = ',' then
        let c := (c.advance 1).skipBlanks
        match c.rest with
        | [] => c.errorAfter .endInValue
        | '"' :: _ => next c
        | '}' :: _ => c.errorAfter .trailingComma
        | _ => c.errorAfter .keyNotString
      else c.errorAfter .objectCommaExpected

def record (shape : Shape σ) : JsonReader σ := fun c =>
  let c := c.skipBlanks
  match c.rest with
  | [] => c.errorAfter .endInValue
  | '[' :: _ => elements true shape.defaults shape.fields (c.advance 1)
  | '{' :: _ => members shape.fields [] true shape.defaults (c.rest.length + 1) (c.advance 1)
  | _ => mismatch shape.name c

/-- Reads a text that holds one value and nothing but blanks around it. -/
def whole? (read : JsonReader α) (text : String) : Except JsonError α := do
  let (a, c) ← read (.ofText text)
  let c := c.skipBlanks
  if c.rest.isEmpty then return a else c.errorAfter .trailingCharacters

end LetterLang.JsonReader

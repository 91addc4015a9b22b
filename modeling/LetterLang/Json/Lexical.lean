import LetterLang.Json.Cursor
import LetterLang.Number.Binary64

/-!
# Reading JSON: words, strings and numbers

The parts of a JSON text that hold no other values. A string is read to its value or skipped; a
skipped string may hold an escape of half a character, a read one may not.
-/

namespace LetterLang.JsonReader

attribute [local instance] natPow

open JsonCursor

/-! ## Words -/

def word : List Char → JsonCursor → Except JsonError JsonCursor
  | [], c => .ok c
  | w :: ws, c =>
    match c.rest with
    | [] => c.error .endInValue
    | x :: _ => if x = w then word ws (c.advance 1) else c.errorAfter .wordExpected

/-! ## Strings -/

def hexValue? (c : Char) : Option Nat :=
  if '0' ≤ c ∧ c ≤ '9' then some (c.toNat - '0'.toNat)
  else if 'a' ≤ c ∧ c ≤ 'f' then some (c.toNat - 'a'.toNat + 10)
  else if 'A' ≤ c ∧ c ≤ 'F' then some (c.toNat - 'A'.toNat + 10)
  else none

def hexValue4? : List Char → Option Nat
  | [a, b, c, d] => do
    return ((← hexValue? a) * 16 + (← hexValue? b)) * 256 + (← hexValue? c) * 16 + (← hexValue? d)
  | _ => none

def hex4 : JsonReader Nat := fun c =>
  if Text.byteLength c.rest < 4 then (c.advance c.rest.length).error .endInString
  else match hexValue4? (c.rest.take 4) with
    | some n => .ok (n, c.advance 4)
    | none => .error ⟨.invalidEscape, c.offset + 4⟩

/-- Whether a number is the first half of a pair that stands for one character. -/
def isHighSurrogate (n : Nat) : Bool :=
  0xD800 ≤ n && n ≤ 0xDBFF

/-- Whether a number is the second half of a pair that stands for one character. -/
def isLowSurrogate (n : Nat) : Bool :=
  0xDC00 ≤ n && n ≤ 0xDFFF

/-- Reads a character that has to come after the first half of a pair. -/
def pairMark (mark : Char) (c : JsonCursor) : Except JsonError JsonCursor :=
  match c.rest with
  | [] => c.error .endInString
  | x :: _ => if x = mark then .ok (c.advance 1) else c.errorAfter .unfinishedSurrogate

/-- Reads the digits of an escaped character, both halves if it is written as a pair. -/
def escapedCodePoint : JsonReader Char := fun c => do
  let (high, c) ← hex4 c
  if isLowSurrogate high then c.error .loneSurrogate
  else if isHighSurrogate high then
    let c ← pairMark '\\' c
    let c ← pairMark 'u' c
    let (low, c) ← hex4 c
    if isLowSurrogate low then
      return (Char.ofNat ((high - 0xD800) * 0x400 + (low - 0xDC00) + 0x10000), c)
    else c.error .loneSurrogate
  else return (Char.ofNat high, c)

def shortEscape? : Char → Option Char
  | '"' => some '"'
  | '\\' => some '\\'
  | '/' => some '/'
  | 'b' => some '\x08'
  | 'f' => some '\x0c'
  | 'n' => some '\n'
  | 'r' => some '\r'
  | 't' => some '\t'
  | _ => none

/-- Reads an escape after its backslash. -/
def escape : JsonReader Char := fun c =>
  match c.rest with
  | [] => c.error .endInString
  | 'u' :: _ => escapedCodePoint (c.advance 1)
  | x :: _ =>
    match shortEscape? x with
    | some r => .ok (r, c.advance 1)
    | none => c.errorAfter .invalidEscape

def skipEscape (c : JsonCursor) : Except JsonError JsonCursor :=
  match c.rest with
  | [] => c.error .endInString
  | 'u' :: _ => (hex4 (c.advance 1)).map Prod.snd
  | x :: _ =>
    match shortEscape? x with
    | some _ => .ok (c.advance 1)
    | none => c.errorAfter .invalidEscape

/-- Reads the rest of a string, whose characters so far are in `read`, the latest first. `fuel`
bounds the number of characters. -/
def stringAfter (read : List Char) : Nat → JsonReader String
  | 0, c => c.error .endInString
  | fuel + 1, c =>
    match c.rest with
    | [] => c.error .endInString
    | '"' :: _ => .ok (String.ofList read.reverse, c.advance 1)
    | '\\' :: _ => do
      let (x, c) ← escape (c.advance 1)
      stringAfter (x :: read) fuel c
    | x :: _ =>
      if x.toNat < 0x20 then c.errorAfter .controlCharacter
      else stringAfter (x :: read) fuel (c.advance 1)

/-- Reads a string after its opening quote. -/
def string : JsonReader String := fun c =>
  stringAfter [] (c.rest.length + 1) c

/-- Skips the rest of a string. `fuel` bounds the number of characters. -/
def skipStringAfter : Nat → JsonCursor → Except JsonError JsonCursor
  | 0, c => c.error .endInString
  | fuel + 1, c =>
    match c.rest with
    | [] => c.error .endInString
    | '"' :: _ => .ok (c.advance 1)
    | '\\' :: _ => do skipStringAfter fuel (← skipEscape (c.advance 1))
    | x :: _ =>
      if x.toNat < 0x20 then c.error .controlCharacter else skipStringAfter fuel (c.advance 1)

def skipString (c : JsonCursor) : Except JsonError JsonCursor :=
  skipStringAfter (c.rest.length + 1) c

/-! ## Numbers that are skipped -/

def skipDigits (c : JsonCursor) : JsonCursor :=
  c.advance (c.rest.takeWhile Text.isDigit).length

def startsWithDigit (c : JsonCursor) : Bool :=
  c.rest.head?.any Text.isDigit

/-- Skips an exponent after its mark. -/
def skipExponent (c : JsonCursor) : Except JsonError JsonCursor :=
  let c := match c.rest with
    | '+' :: _ | '-' :: _ => c.advance 1
    | _ => c
  if startsWithDigit c then .ok (skipDigits c) else c.errorAfter .invalidNumber

/-- Skips a fraction after its point, and an exponent. -/
def skipFraction (c : JsonCursor) : Except JsonError JsonCursor :=
  if startsWithDigit c then
    let c := skipDigits c
    match c.rest with
    | 'e' :: _ | 'E' :: _ => skipExponent (c.advance 1)
    | _ => .ok c
  else c.errorAfter .invalidNumber

/-- Skips a number after its sign. -/
def skipNumber (c : JsonCursor) : Except JsonError JsonCursor := do
  let c ← match c.rest with
    | '0' :: _ =>
      let c := c.advance 1
      -- A leading zero is the only digit of the whole part.
      if startsWithDigit c then c.errorAfter .invalidNumber else .ok c
    | _ => if startsWithDigit c then .ok (skipDigits c) else c.errorAfter .invalidNumber
  match c.rest with
  | '.' :: _ => skipFraction (c.advance 1)
  | 'e' :: _ | 'E' :: _ => skipExponent (c.advance 1)
  | _ => .ok c

/-! ## Numbers that are read -/

/-- The largest number that the digits of a number are gathered into. -/
def digitsLimit : Nat :=
  2 ^ (64 : Nat) - 1

/-- The largest exponent that is told apart. -/
def exponentLimit : Nat :=
  2 ^ (31 : Nat) - 1

/-- Gathers digits into a number as long as it stays within a limit. Gives the number, how many
digits went into it, and the digits left over. -/
def gather (limit : Nat) : Nat → Nat → List Char → Nat × Nat × List Char
  | n, count, [] => (n, count, [])
  | n, count, d :: ds =>
    let next := 10 * n + (d.toNat - '0'.toNat)
    if limit < next then (n, count, d :: ds) else gather limit next (count + 1) ds

/-- A magnitude times a power of ten, none if that is out of range. The power is rounded before it
is used, and the result after; powers below 10⁻³⁰⁸ are taken in steps, at most `fuel` of them. -/
def timesPowerOfTen : Nat → Magnitude → Int → Option Magnitude
  | _, m, .ofNat e =>
    if e ≤ 308 then (Decimal.nearest? ⟨1, e⟩).bind m.mul?
    else if m = .zero then some m else none
  | fuel, m, .negSucc e =>
    if e < 308 then (Decimal.nearest? ⟨1, (e + 1 : Nat)⟩).bind m.div?
    else if m = .zero then some m
    else match fuel with
      | 0 => some .zero
      | fuel + 1 =>
        ((Decimal.nearest? ⟨1, 308⟩).bind m.div?).bind fun q =>
          timesPowerOfTen fuel q (.negSucc e + 308)

/-- The number `digits · 10^exponent` with its sign. The digits, at most 64 bits, are rounded first;
two steps down from there nothing is left. -/
def scaled (minus : Bool) (digits : Nat) (exponent : Int) : JsonReader JsonFound := fun c =>
  match (Decimal.nearest? ⟨digits, 0⟩).bind (timesPowerOfTen 2 · exponent) with
  | some m => .ok (.decimal minus m, c)
  | none => c.error .numberOutOfRange

/-- Reads an exponent after its mark; the number before it is `digits · 10^exponent`. -/
def exponentAfter (minus : Bool) (digits : Nat) (exponent : Int) : JsonReader JsonFound :=
  fun c =>
    let (down, c) := match c.rest with
      | '-' :: _ => (true, c.advance 1)
      | '+' :: _ => (false, c.advance 1)
      | _ => (false, c)
    if startsWithDigit c then
      let (e, count, left) := gather exponentLimit 0 0 (c.rest.takeWhile Text.isDigit)
      if left.isEmpty then
        scaled minus digits (if down then exponent - e else exponent + e) (c.advance count)
      else if digits ≠ 0 ∧ !down then (c.advance (count + 1)).error .numberOutOfRange
      else scaled minus 0 0 (skipDigits c)
    else match c.rest with
      | [] => c.error .endInValue
      | _ => c.errorAfter .invalidNumber

/-- Reads what may follow the digits of a decimal: an exponent. -/
def afterDigits (minus : Bool) (digits : Nat) (exponent : Int) : JsonReader JsonFound :=
  fun c =>
    match c.rest with
    | 'e' :: _ | 'E' :: _ => exponentAfter minus digits exponent (c.advance 1)
    | _ => scaled minus digits exponent c

/-- Reads a fraction after its point; the number before it is `digits · 10^exponent`. -/
def fractionAfter (minus : Bool) (digits : Nat) (exponent : Int) : JsonReader JsonFound :=
  fun c =>
    if startsWithDigit c then
      let (n, count, _) := gather digitsLimit digits 0 (c.rest.takeWhile Text.isDigit)
      afterDigits minus n (exponent - count) (skipDigits c)
    else match c.rest with
      | [] => c.error .endInValue
      | _ => c.errorAfter .invalidNumber

/-- A number without fraction and exponent. Minus zero and numbers beyond 64 bits are decimals. -/
def whole (minus : Bool) (n : Nat) : JsonReader JsonFound := fun c =>
  if minus then
    if n = 0 ∨ 2 ^ (63 : Nat) < n then scaled true n 0 c else .ok (.negative n, c)
  else .ok (.natural n, c)

def number (minus : Bool) : JsonReader JsonFound := fun c =>
  if startsWithDigit c then
    let digits := c.rest.takeWhile Text.isDigit
    if c.rest.head? = some '0' ∧ 1 < digits.length then (c.advance 1).errorAfter .invalidNumber
    else
      let (n, count, left) := gather digitsLimit 0 0 digits
      let after := c.advance digits.length
      match after.rest with
      | '.' :: _ => fractionAfter minus n (digits.length - count : Nat) (after.advance 1)
      | 'e' :: _ | 'E' :: _ =>
        exponentAfter minus n (digits.length - count : Nat) (after.advance 1)
      | _ =>
        if left.isEmpty then whole minus n after
        else scaled minus n (digits.length - count : Nat) after
  else match c.rest with
    | [] => c.error .endInValue
    | _ => c.errorAfter .invalidNumber

end LetterLang.JsonReader

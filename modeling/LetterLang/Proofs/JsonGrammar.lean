import LetterLang.Json.Record
import LetterLang.Proofs.LexemeText
import LetterLang.Proofs.NumberText

/-!
# JSON texts, and skipping them

The grammar of JSON as it is published, over lists of characters and without any reader: blanks
between tokens, strings with their escapes, numbers, arrays and objects of any depth. A value that
nothing asks for is skipped exactly: whatever it holds, the skipper stops at its last character.

- `JsonGrammar.IsValue`: the texts of values.
- `JsonGrammar.Spells`: the texts that a string of characters can be written as.
- `JsonReader.string_spells`: a string is read to the characters that it spells.
- `JsonReader.skipValue_leaves`: a value is skipped up to what follows it.
-/

namespace LetterLang

open Text (AllDigits byteLength)

/-! ## The grammar -/

namespace JsonGrammar

def Blanks (cs : List Char) : Prop :=
  ∀ c ∈ cs, c = ' ' ∨ c = '\t' ∨ c = '\n' ∨ c = '\r'

theorem blanks_nil : Blanks [] :=
  nofun

def IsHexDigit (n : Nat) (c : Char) : Prop :=
  n < 16 ∧ (c = Nat.digitChar n ∨ c = (Nat.digitChar n).toUpper)

inductive IsHex4 : Nat → List Char → Prop
  | digits {k l m n : Nat} {a b c d : Char} :
      IsHexDigit k a → IsHexDigit l b → IsHexDigit m c → IsHexDigit n d →
      IsHex4 (((k * 16 + l) * 16 + m) * 16 + n) [a, b, c, d]

/-- The characters that may follow a backslash, and what they then stand for. -/
def shortEscapes : List (Char × Char) :=
  [('"', '"'), ('\\', '\\'), ('/', '/'), ('b', '\x08'), ('f', '\x0c'), ('n', '\n'), ('r', '\r'),
    ('t', '\t')]

def IsPlain (c : Char) : Prop :=
  c ≠ '"' ∧ c ≠ '\\' ∧ 0x20 ≤ c.toNat

inductive Characters : List Char → Prop
  | nil : Characters []
  | plain {c cs} : IsPlain c → Characters cs → Characters (c :: cs)
  | short {x c cs} : (x, c) ∈ shortEscapes → Characters cs → Characters ('\\' :: x :: cs)
  | unicode {n ds cs} : IsHex4 n ds → Characters cs → Characters ('\\' :: 'u' :: (ds ++ cs))

/-- The characters that a text between quotes stands for. An escaped number is the character of that
number, or half of one that is written as a pair. -/
inductive Spells : List Char → List Char → Prop
  | nil : Spells [] []
  | plain {c v cs} : IsPlain c → Spells v cs → Spells (c :: v) (c :: cs)
  | short {x c v cs} : (x, c) ∈ shortEscapes → Spells v cs → Spells (c :: v) ('\\' :: x :: cs)
  | unicode {c : Char} {ds v cs} : IsHex4 c.toNat ds → Spells v cs →
      Spells (c :: v) ('\\' :: 'u' :: (ds ++ cs))
  | pair {high low : Nat} {c : Char} {hs ls v cs} : IsHex4 high hs → IsHex4 low ls →
      0xD800 ≤ high → high < 0xDC00 → 0xDC00 ≤ low → low < 0xE000 →
      c.toNat = 0x10000 + (high - 0xD800) * 0x400 + (low - 0xDC00) → Spells v cs →
      Spells (c :: v) ('\\' :: 'u' :: (hs ++ '\\' :: 'u' :: (ls ++ cs)))

def Digits (ds : List Char) : Prop :=
  ds ≠ [] ∧ AllDigits ds

/-- The whole part of a number: no leading zero. -/
inductive Whole : List Char → Prop
  | zero : Whole ['0']
  | digits {d ds} : d ≠ '0' → AllDigits (d :: ds) → Whole (d :: ds)

inductive Fraction : List Char → Prop
  | none : Fraction []
  | digits {ds} : Digits ds → Fraction ('.' :: ds)

inductive Exponent : List Char → Prop
  | none : Exponent []
  | digits {mark sign ds} : mark = 'e' ∨ mark = 'E' → sign = [] ∨ sign = ['+'] ∨ sign = ['-'] →
      Digits ds → Exponent (mark :: (sign ++ ds))

inductive Unsigned : List Char → Prop
  | parts {whole fraction exponent} : Whole whole → Fraction fraction → Exponent exponent →
      Unsigned (whole ++ (fraction ++ exponent))

/-- The brackets around the elements of an array and the members of an object. -/
inductive Bracket where
  | square | curly

def Bracket.opening : Bracket → Char
  | .square => '['
  | .curly => '{'

def Bracket.closing : Bracket → Char
  | .square => ']'
  | .curly => '}'

/-- A part of a JSON text: a value, an element or member between brackets, or what follows one up to
the closing bracket. -/
inductive Part where
  | value
  | item (bracket : Bracket)
  | rest (bracket : Bracket)

/-- The texts of the parts. One relation for all of them, so that an induction goes through them
together. -/
inductive IsPart : Part → List Char → Prop
  | null : IsPart .value ['n', 'u', 'l', 'l']
  | true : IsPart .value ['t', 'r', 'u', 'e']
  | false : IsPart .value ['f', 'a', 'l', 's', 'e']
  | string {cs} : Characters cs → IsPart .value ('"' :: (cs ++ ['"']))
  | unsigned {cs} : Unsigned cs → IsPart .value cs
  | negative {cs} : Unsigned cs → IsPart .value ('-' :: cs)
  | empty {b : Bracket} {ws} : Blanks ws → IsPart .value (b.opening :: (ws ++ [b.closing]))
  | items {b : Bracket} {ws i cs} : Blanks ws → IsPart (.item b) i → IsPart (.rest b) cs →
      IsPart .value (b.opening :: (ws ++ (i ++ (cs ++ [b.closing]))))
  | element {v} : IsPart .value v → IsPart (.item .square) v
  | member {key ws ws' v} : Characters key → Blanks ws → Blanks ws' → IsPart .value v →
      IsPart (.item .curly) ('"' :: (key ++ '"' :: (ws ++ ':' :: (ws' ++ v))))
  | last {b : Bracket} {ws} : Blanks ws → IsPart (.rest b) ws
  | more {b : Bracket} {ws ws' i cs} : Blanks ws → Blanks ws' → IsPart (.item b) i →
      IsPart (.rest b) cs → IsPart (.rest b) (ws ++ ',' :: (ws' ++ (i ++ cs)))

/-- The texts of values, without blanks around them. -/
abbrev IsValue : List Char → Prop :=
  IsPart .value

end JsonGrammar

/-! ## Reading over a part -/

namespace JsonReader

open JsonCursor JsonGrammar

variable {cs ds rest ws : List Char} {offset : Nat}

/-- A step that reads on to what is left of the text. -/
def Leaves (r : Except JsonError JsonCursor) (rest : List Char) : Prop :=
  ∃ after, r = .ok ⟨rest, after⟩

/-- No number goes on with what follows. -/
def Stops (rest : List Char) : Prop :=
  ∀ c, rest.head? = some c → Text.isDigit c = false ∧ c ≠ '.' ∧ c ≠ 'e' ∧ c ≠ 'E'

theorem stops_nil : Stops [] :=
  nofun

theorem stops_cons {c : Char} (h : Text.isDigit c = false ∧ c ≠ '.' ∧ c ≠ 'e' ∧ c ≠ 'E') :
    Stops (c :: rest) := by
  intro d hd
  obtain rfl := Option.some.inj hd
  exact h

theorem isBlank_of_blanks (hws : Blanks ws) : ∀ c ∈ ws, isBlank c = true := by
  intro c hc
  rcases hws c hc with rfl | rfl | rfl | rfl <;> rfl

theorem stops_append (hws : Blanks ws) (h : Stops rest) : Stops (ws ++ rest) := by
  cases ws with
  | nil => exact h
  | cons c ws =>
      refine stops_cons ?_
      rcases hws c List.mem_cons_self with rfl | rfl | rfl | rfl <;> decide

theorem advance_append (cs rest : List Char) (offset : Nat) :
    advance ⟨cs ++ rest, offset⟩ cs.length = ⟨rest, offset + byteLength cs⟩ := by
  rw [advance, List.drop_left, List.take_left]

theorem advance_takeWhile {p : Char → Bool} (hcs : ∀ c ∈ cs, p c = true)
    (hrest : rest.head?.any p = false) :
    advance ⟨cs ++ rest, offset⟩ ((cs ++ rest).takeWhile p).length =
      ⟨rest, offset + byteLength cs⟩ := by
  rw [Text.takeWhile_append hcs hrest, advance_append]

/-- Blanks make no difference where blanks are skipped. -/
theorem skipBlanks_append (hws : Blanks ws) :
    skipBlanks ⟨ws ++ rest, offset⟩ = skipBlanks ⟨rest, offset + byteLength ws⟩ := by
  have htake : (ws ++ rest).takeWhile isBlank = ws ++ rest.takeWhile isBlank :=
    List.takeWhile_append_of_pos (isBlank_of_blanks hws)
  rw [skipBlanks, skipBlanks, htake, advance, advance, List.length_append,
    List.drop_length_add_append, List.take_length_add_append, Text.byteLength_append, Nat.add_assoc]

theorem skipBlanks_of_not {c : Char} (hc : isBlank c = false) :
    skipBlanks ⟨c :: rest, offset⟩ = ⟨c :: rest, offset⟩ := by
  have htake : (c :: rest).takeWhile isBlank = [] := by
    rw [List.takeWhile_cons, hc]
    rfl
  rw [skipBlanks, htake]
  rfl

/-! ## Strings -/

theorem hexValue?_of_isHexDigit {n : Nat} {c : Char} (h : IsHexDigit n c) :
    hexValue? c = some n := by
  obtain ⟨hn, hc⟩ := h
  have hlower : ∀ n < 16, hexValue? (Nat.digitChar n) = some n := by decide
  have hupper : ∀ n < 16, hexValue? (Nat.digitChar n).toUpper = some n := by decide
  rcases hc with rfl | rfl
  · exact hlower n hn
  · exact hupper n hn

theorem hexValue4?_of_isHex4 {n : Nat} (h : IsHex4 n ds) : hexValue4? ds = some n := by
  cases h with
  | @digits k l m n a b c d ha hb hc hd =>
      have hvalue : (k * 16 + l) * 256 + m * 16 + n = ((k * 16 + l) * 16 + m) * 16 + n := by omega
      simp only [hexValue4?, hexValue?_of_isHexDigit ha, hexValue?_of_isHexDigit hb,
        hexValue?_of_isHexDigit hc, hexValue?_of_isHexDigit hd]
      exact congrArg some hvalue

theorem length_of_isHex4 {n : Nat} (h : IsHex4 n ds) : ds.length = 4 := by
  cases h with
  | digits => rfl

theorem length_le_byteLength (cs : List Char) : cs.length ≤ byteLength cs := by
  induction cs with
  | nil => exact Nat.le_refl _
  | cons c cs ih =>
      have hpos := c.utf8Size_pos
      rw [List.length_cons, Text.byteLength_cons]
      omega

theorem hex4_of_isHex4 {n : Nat} (h : IsHex4 n ds) :
    hex4 ⟨ds ++ rest, offset⟩ = .ok (n, ⟨rest, offset + byteLength ds⟩) := by
  have hlength := length_of_isHex4 h
  have hbytes : ¬ byteLength (ds ++ rest) < 4 := by
    have := length_le_byteLength ds
    rw [Text.byteLength_append]
    omega
  have htake : (ds ++ rest).take 4 = ds := List.take_left' hlength
  have hadvance : advance ⟨ds ++ rest, offset⟩ 4 = ⟨rest, offset + byteLength ds⟩ := by
    rw [← hlength, advance_append]
  rw [hex4, if_neg hbytes, hadvance]
  simp only [htake, hexValue4?_of_isHex4 h]

theorem shortEscape?_of_mem {x c : Char} (h : (x, c) ∈ shortEscapes) :
    shortEscape? x = some c ∧ x ≠ 'u' := by
  have hall : ∀ p ∈ shortEscapes, shortEscape? p.1 = some p.2 ∧ p.1 ≠ 'u' := by decide
  exact hall (x, c) h

theorem skipEscape_short {x c : Char} (h : (x, c) ∈ shortEscapes) :
    Leaves (skipEscape ⟨x :: rest, offset⟩) rest := by
  obtain ⟨hx, hu⟩ := shortEscape?_of_mem h
  rw [skipEscape]
  split
  · next hnil => cases hnil
  · next hcons => exact absurd (List.cons.inj hcons).1 hu
  · next hcons =>
    cases hcons
    rw [hx]
    exact ⟨_, rfl⟩

theorem escape_short {x c : Char} (h : (x, c) ∈ shortEscapes) :
    ∃ after, escape ⟨x :: rest, offset⟩ = .ok (c, ⟨rest, after⟩) := by
  obtain ⟨hx, hu⟩ := shortEscape?_of_mem h
  rw [escape]
  split
  · next hnil => cases hnil
  · next hcons => exact absurd (List.cons.inj hcons).1 hu
  · next hcons =>
    cases hcons
    rw [hx]
    exact ⟨_, rfl⟩

theorem skipEscape_unicode {n : Nat} (h : IsHex4 n ds) :
    Leaves (skipEscape ⟨'u' :: (ds ++ rest), offset⟩) rest := by
  have hadvance : advance ⟨'u' :: (ds ++ rest), offset⟩ 1 = ⟨ds ++ rest, offset + 1⟩ := rfl
  show Leaves ((hex4 (advance ⟨'u' :: (ds ++ rest), offset⟩ 1)).map Prod.snd) rest
  rw [hadvance, hex4_of_isHex4 h]
  exact ⟨_, rfl⟩

theorem surrogate_of_char (c : Char) : isLowSurrogate c.toNat = false ∧
    isHighSurrogate c.toNat = false := by
  have hvalid : c.toNat < 0xD800 ∨ 0xDFFF < c.toNat := by
    rcases c.valid with h | h
    · exact .inl h
    · exact .inr h.1
  simp only [isLowSurrogate, isHighSurrogate, Bool.and_eq_false_iff, decide_eq_false_iff_not]
  omega

theorem escape_char {c : Char} (h : IsHex4 c.toNat ds) :
    ∃ after, escape ⟨'u' :: (ds ++ rest), offset⟩ = .ok (c, ⟨rest, after⟩) := by
  obtain ⟨hlow, hhigh⟩ := surrogate_of_char c
  show ∃ after, escapedCodePoint ⟨ds ++ rest, offset + 1⟩ = .ok (c, ⟨rest, after⟩)
  rw [escapedCodePoint, hex4_of_isHex4 h]
  show ∃ after, (if isLowSurrogate c.toNat = true then _ else if isHighSurrogate c.toNat = true
    then _ else Except.ok (Char.ofNat c.toNat, _)) = _
  rw [hlow, hhigh, Char.ofNat_toNat]
  exact ⟨_, rfl⟩

theorem escape_pair {high low : Nat} {c : Char} {hs ls : List Char} (hhs : IsHex4 high hs)
    (hls : IsHex4 low ls) (hh : 0xD800 ≤ high) (hh' : high < 0xDC00) (hl : 0xDC00 ≤ low)
    (hl' : low < 0xE000) (hc : c.toNat = 0x10000 + (high - 0xD800) * 0x400 + (low - 0xDC00)) :
    ∃ after, escape ⟨'u' :: (hs ++ '\\' :: 'u' :: (ls ++ rest)), offset⟩ =
      .ok (c, ⟨rest, after⟩) := by
  have hnot : isLowSurrogate high = false := by
    simp only [isLowSurrogate, Bool.and_eq_false_iff, decide_eq_false_iff_not]
    omega
  have hhigh : isHighSurrogate high = true := by
    simp only [isHighSurrogate, Bool.and_eq_true, decide_eq_true_eq]
    omega
  have hlow : isLowSurrogate low = true := by
    simp only [isLowSurrogate, Bool.and_eq_true, decide_eq_true_eq]
    omega
  have hvalue : (high - 0xD800) * 0x400 + (low - 0xDC00) + 0x10000 = c.toNat := by omega
  show ∃ after, escapedCodePoint ⟨hs ++ '\\' :: 'u' :: (ls ++ rest), offset + 1⟩ =
    .ok (c, ⟨rest, after⟩)
  rw [escapedCodePoint, hex4_of_isHex4 hhs]
  show ∃ after, (if isLowSurrogate high = true then _ else if isHighSurrogate high = true then
    (hex4 ⟨ls ++ rest, _⟩ >>= fun found => if isLowSurrogate found.1 = true then
      pure (Char.ofNat ((high - 0xD800) * 0x400 + (found.1 - 0xDC00) + 0x10000), found.2) else _)
    else _) = _
  rw [hnot, hhigh, hex4_of_isHex4 hls]
  show ∃ after, (if isLowSurrogate low = true then
    Except.ok (Char.ofNat ((high - 0xD800) * 0x400 + (low - 0xDC00) + 0x10000), _) else _) = _
  rw [hlow, hvalue, Char.ofNat_toNat]
  exact ⟨_, rfl⟩

theorem skipStringAfter_plain {c : Char} (hc : IsPlain c) (fuel : Nat) :
    skipStringAfter (fuel + 1) ⟨c :: rest, offset⟩ =
      skipStringAfter fuel ⟨rest, offset + byteLength [c]⟩ := by
  obtain ⟨hquote, hslash, hprintable⟩ := hc
  rw [skipStringAfter]
  split
  · next h => cases h
  · next h => exact absurd (List.cons.inj h).1 hquote
  · next h => exact absurd (List.cons.inj h).1 hslash
  · next h =>
    cases h
    rw [if_neg (Nat.not_lt.2 hprintable)]
    rfl

theorem stringAfter_plain {c : Char} (hc : IsPlain c) (read : List Char) (fuel : Nat) :
    stringAfter read (fuel + 1) ⟨c :: rest, offset⟩ =
      stringAfter (c :: read) fuel ⟨rest, offset + byteLength [c]⟩ := by
  obtain ⟨hquote, hslash, hprintable⟩ := hc
  rw [stringAfter]
  split
  · next h => cases h
  · next h => exact absurd (List.cons.inj h).1 hquote
  · next h => exact absurd (List.cons.inj h).1 hslash
  · next h =>
    cases h
    rw [if_neg (Nat.not_lt.2 hprintable)]
    rfl

theorem skipStringAfter_escape {text : List Char} (fuel : Nat)
    (h : Leaves (skipEscape ⟨text, offset + 1⟩) rest) :
    ∃ after, skipStringAfter (fuel + 1) ⟨'\\' :: text, offset⟩ =
      skipStringAfter fuel ⟨rest, after⟩ := by
  obtain ⟨after, h⟩ := h
  have hstep : skipStringAfter (fuel + 1) ⟨'\\' :: text, offset⟩ =
      (skipEscape ⟨text, offset + 1⟩ >>= skipStringAfter fuel) := rfl
  rw [hstep, h]
  exact ⟨after, rfl⟩

theorem stringAfter_escape {text : List Char} {c : Char} (read : List Char) (fuel : Nat)
    (h : ∃ after, escape ⟨text, offset + 1⟩ = .ok (c, ⟨rest, after⟩)) :
    ∃ after, stringAfter read (fuel + 1) ⟨'\\' :: text, offset⟩ =
      stringAfter (c :: read) fuel ⟨rest, after⟩ := by
  obtain ⟨after, h⟩ := h
  have hstep : stringAfter read (fuel + 1) ⟨'\\' :: text, offset⟩ =
      (escape ⟨text, offset + 1⟩ >>= fun found => stringAfter (found.1 :: read) fuel found.2) := rfl
  rw [hstep, h]
  exact ⟨after, rfl⟩

theorem exists_succ {n fuel : Nat} (h : n < fuel) : ∃ k, fuel = k + 1 :=
  Nat.exists_eq_succ_of_ne_zero (Nat.ne_zero_of_lt h)

/-- **A string is skipped** up to its closing quote, whatever escapes it holds. -/
theorem skipStringAfter_leaves (h : Characters cs) (rest : List Char) {fuel : Nat}
    (hfuel : cs.length < fuel) :
    Leaves (skipStringAfter fuel ⟨cs ++ '"' :: rest, offset⟩) rest := by
  induction h generalizing fuel offset with
  | nil =>
      obtain ⟨fuel, rfl⟩ := exists_succ hfuel
      exact ⟨_, rfl⟩
  | plain hc _ ih =>
      obtain ⟨fuel, rfl⟩ := exists_succ hfuel
      rw [List.cons_append, skipStringAfter_plain hc]
      exact ih (Nat.lt_of_succ_lt_succ hfuel)
  | short hx _ ih =>
      obtain ⟨fuel, rfl⟩ := exists_succ hfuel
      obtain ⟨after, hstep⟩ := skipStringAfter_escape fuel (skipEscape_short hx)
      rw [List.cons_append, List.cons_append, hstep]
      rw [List.length_cons, List.length_cons] at hfuel
      exact ih (by omega)
  | unicode hds _ ih =>
      obtain ⟨fuel, rfl⟩ := exists_succ hfuel
      obtain ⟨after, hstep⟩ := skipStringAfter_escape fuel (skipEscape_unicode hds)
      rw [List.cons_append, List.cons_append, List.append_assoc, hstep]
      rw [List.length_cons, List.length_cons, List.length_append] at hfuel
      exact ih (by omega)

theorem skipString_leaves (h : Characters cs) (rest : List Char) (offset : Nat) :
    Leaves (skipString ⟨cs ++ '"' :: rest, offset⟩) rest := by
  refine skipStringAfter_leaves h rest ?_
  rw [List.length_append]
  omega

/-- **A string is read to the characters that it spells.** -/
theorem stringAfter_spells {v : List Char} (h : Spells v cs) (rest : List Char) (read : List Char)
    {fuel : Nat} (hfuel : cs.length < fuel) :
    ∃ after, stringAfter read fuel ⟨cs ++ '"' :: rest, offset⟩ =
      .ok (String.ofList (read.reverse ++ v), ⟨rest, after⟩) := by
  have hmove : ∀ (c : Char) (read v : List Char),
      read.reverse ++ c :: v = (c :: read).reverse ++ v := by
    intro c read v
    rw [List.reverse_cons, List.append_assoc]
    rfl
  induction h generalizing fuel offset read with
  | nil =>
      obtain ⟨fuel, rfl⟩ := exists_succ hfuel
      rw [List.append_nil]
      exact ⟨_, rfl⟩
  | plain hc _ ih =>
      obtain ⟨fuel, rfl⟩ := exists_succ hfuel
      rw [List.cons_append, stringAfter_plain hc, hmove]
      exact ih _ (Nat.lt_of_succ_lt_succ hfuel)
  | short hx _ ih =>
      obtain ⟨fuel, rfl⟩ := exists_succ hfuel
      obtain ⟨after, hstep⟩ := stringAfter_escape read fuel (escape_short hx)
      rw [List.cons_append, List.cons_append, hstep, hmove]
      rw [List.length_cons, List.length_cons] at hfuel
      exact ih _ (by omega)
  | unicode hds _ ih =>
      obtain ⟨fuel, rfl⟩ := exists_succ hfuel
      obtain ⟨after, hstep⟩ := stringAfter_escape read fuel (escape_char hds)
      rw [List.cons_append, List.cons_append, List.append_assoc, hstep, hmove]
      rw [List.length_cons, List.length_cons, List.length_append] at hfuel
      exact ih _ (by omega)
  | pair hhs hls hh hh' hl hl' hc _ ih =>
      obtain ⟨fuel, rfl⟩ := exists_succ hfuel
      obtain ⟨after, hstep⟩ :=
        stringAfter_escape read fuel (escape_pair hhs hls hh hh' hl hl' hc)
      simp only [List.cons_append, List.append_assoc]
      rw [hstep, hmove]
      simp only [List.length_cons, List.length_append] at hfuel
      exact ih _ (by omega)

theorem string_spells {v : List Char} (h : Spells v cs) (rest : List Char) (offset : Nat) :
    ∃ after, string ⟨cs ++ '"' :: rest, offset⟩ = .ok (String.ofList v, ⟨rest, after⟩) := by
  refine stringAfter_spells h rest [] ?_
  rw [List.length_append]
  omega

/-! ## Numbers -/

theorem startsWithDigit_append (hds : Digits ds) (rest : List Char) :
    startsWithDigit ⟨ds ++ rest, offset⟩ = true := by
  obtain ⟨hne, hdigits⟩ := hds
  obtain ⟨d, ds, rfl⟩ := List.exists_cons_of_ne_nil hne
  exact hdigits d List.mem_cons_self

theorem skipDigits_append (hds : AllDigits ds) (hrest : rest.head?.any Text.isDigit = false) :
    skipDigits ⟨ds ++ rest, offset⟩ = ⟨rest, offset + byteLength ds⟩ :=
  advance_takeWhile hds hrest

theorem noDigit_of_stops (h : Stops rest) : rest.head?.any Text.isDigit = false := by
  cases rest with
  | nil => rfl
  | cons c rest => exact (h c rfl).1

theorem skipExponent_leaves {sign : List Char} (hsign : sign = [] ∨ sign = ['+'] ∨ sign = ['-'])
    (hds : Digits ds) (hrest : Stops rest) (offset : Nat) :
    Leaves (skipExponent ⟨sign ++ (ds ++ rest), offset⟩) rest := by
  have hdigits : ∀ offset, Leaves (if startsWithDigit ⟨ds ++ rest, offset⟩ = true then
      Except.ok (skipDigits ⟨ds ++ rest, offset⟩)
      else errorAfter ⟨ds ++ rest, offset⟩ .invalidNumber) rest := by
    intro offset
    rw [startsWithDigit_append hds, if_pos rfl, skipDigits_append hds.2 (noDigit_of_stops hrest)]
    exact ⟨_, rfl⟩
  rcases hsign with rfl | rfl | rfl
  · obtain ⟨d, ds, rfl⟩ := List.exists_cons_of_ne_nil hds.1
    have hd : Text.isDigit d = true := hds.2 d List.mem_cons_self
    unfold skipExponent
    dsimp only
    split
    · next h =>
      cases h
      cases hd
    · next h =>
      cases h
      cases hd
    · exact hdigits offset
  · exact hdigits (offset + 1)
  · exact hdigits (offset + 1)

/-- What `skipFraction` does after the digits. -/
def afterFraction (c : JsonCursor) : Except JsonError JsonCursor :=
  match c.rest with
  | 'e' :: _ | 'E' :: _ => skipExponent (c.advance 1)
  | _ => .ok c

/-- What `skipNumber` does after the whole part. -/
def afterWhole (c : JsonCursor) : Except JsonError JsonCursor :=
  match c.rest with
  | '.' :: _ => skipFraction (c.advance 1)
  | 'e' :: _ | 'E' :: _ => skipExponent (c.advance 1)
  | _ => .ok c

theorem afterWhole_of_ne {c : JsonCursor} (h : c.rest.head? ≠ some '.') :
    afterWhole c = afterFraction c := by
  unfold afterWhole afterFraction
  split
  · next hc => exact absurd (congrArg List.head? hc) h
  · next hc =>
    rw [hc]
    rfl
  · next hc =>
    rw [hc]
    rfl
  · next he hE =>
    split
    · next hc => exact absurd hc (he _)
    · next hc => exact absurd hc (hE _)
    · rfl

theorem afterFraction_leaves {exponent : List Char} (h : Exponent exponent) (hrest : Stops rest) :
    Leaves (afterFraction ⟨exponent ++ rest, offset⟩) rest := by
  cases h with
  | none =>
      unfold afterFraction
      split
      · next h => exact absurd rfl (hrest 'e' (congrArg List.head? h)).2.2.1
      · next h => exact absurd rfl (hrest 'E' (congrArg List.head? h)).2.2.2
      · exact ⟨_, rfl⟩
  | @digits mark sign ds hmark hsign hds =>
      rw [List.cons_append, List.append_assoc]
      rcases hmark with rfl | rfl
      · exact skipExponent_leaves hsign hds hrest (offset + 1)
      · exact skipExponent_leaves hsign hds hrest (offset + 1)

theorem noDigit_of_exponent {exponent : List Char} (h : Exponent exponent) (hrest : Stops rest) :
    (exponent ++ rest).head?.any Text.isDigit = false := by
  cases h with
  | none => exact noDigit_of_stops hrest
  | digits hmark => rcases hmark with rfl | rfl <;> rfl

theorem skipFraction_leaves {exponent : List Char} (hds : Digits ds) (h : Exponent exponent)
    (hrest : Stops rest) (offset : Nat) :
    Leaves (skipFraction ⟨ds ++ (exponent ++ rest), offset⟩) rest := by
  unfold skipFraction
  rw [startsWithDigit_append hds, if_pos rfl,
    skipDigits_append hds.2 (noDigit_of_exponent h hrest)]
  exact afterFraction_leaves h hrest

theorem afterWhole_leaves {fraction exponent : List Char} (hfraction : Fraction fraction)
    (hexponent : Exponent exponent) (hrest : Stops rest) :
    Leaves (afterWhole ⟨fraction ++ (exponent ++ rest), offset⟩) rest := by
  cases hfraction with
  | none =>
      have hpoint : (exponent ++ rest).head? ≠ some '.' := by
        cases hexponent with
        | none => exact fun h => (hrest '.' h).2.1 rfl
        | digits hmark => rcases hmark with rfl | rfl <;> nofun
      rw [List.nil_append, afterWhole_of_ne hpoint]
      exact afterFraction_leaves hexponent hrest
  | digits hds => exact skipFraction_leaves hds hexponent hrest (offset + 1)

theorem skipNumber_whole {whole : List Char} (h : Whole whole)
    (hrest : rest.head?.any Text.isDigit = false) :
    skipNumber ⟨whole ++ rest, offset⟩ = afterWhole ⟨rest, offset + byteLength whole⟩ := by
  cases h with
  | zero =>
      have hstarts : startsWithDigit ⟨rest, offset + 1⟩ = false := hrest
      unfold skipNumber
      split
      · show (if startsWithDigit ⟨rest, offset + 1⟩ = true then _
          else afterWhole ⟨rest, offset + 1⟩) = _
        rw [hstarts]
        rfl
      · next h => exact absurd rfl (h rest)
  | @digits d ds hd hdigits =>
      have hstarts : startsWithDigit ⟨d :: ds ++ rest, offset⟩ = true :=
        startsWithDigit_append ⟨List.cons_ne_nil _ _, hdigits⟩ rest
      unfold skipNumber
      split
      · next h => exact absurd (List.cons.inj h).1 hd
      · rw [hstarts, if_pos rfl, skipDigits_append hdigits hrest]
        rfl

theorem noDigit_of_fraction {fraction : List Char} (h : Fraction fraction)
    (hrest : rest.head?.any Text.isDigit = false) :
    (fraction ++ rest).head?.any Text.isDigit = false := by
  cases h with
  | none => exact hrest
  | digits hds => rfl

/-- **A number is skipped** up to what does not go on with it. -/
theorem skipNumber_leaves (h : Unsigned cs) (hrest : Stops rest) (offset : Nat) :
    Leaves (skipNumber ⟨cs ++ rest, offset⟩) rest := by
  cases h with
  | parts hwhole hfraction hexponent =>
      have hdigit := noDigit_of_fraction hfraction (noDigit_of_exponent hexponent hrest)
      rw [List.append_assoc, List.append_assoc, skipNumber_whole hwhole hdigit]
      exact afterWhole_leaves hfraction hexponent hrest

/-! ## Values -/

variable {b : Bracket} {p : Part} {fuel : Nat} {stack outer : List Open} {afterItem : Bool}

def held : Bracket → Open
  | .square => .list
  | .curly => .object

/-- What is skipped before the value of an element or a member. -/
def skipToValue : Bracket → JsonCursor → Except JsonError JsonCursor
  | .square, c => .ok c
  | .curly, c => skipKey c

theorem skipFrom_value_append (hws : Blanks ws) :
    skipFrom (fuel + 1) .value stack ⟨ws ++ rest, offset⟩ =
      skipFrom (fuel + 1) .value stack ⟨rest, offset + byteLength ws⟩ := by
  unfold skipFrom
  rw [skipBlanks_append hws]

theorem skipFrom_more_append (hws : Blanks ws) :
    skipFrom (fuel + 1) (.more afterItem) (held b :: outer) ⟨ws ++ rest, offset⟩ =
      skipFrom (fuel + 1) (.more afterItem) (held b :: outer) ⟨rest, offset + byteLength ws⟩ := by
  cases b <;> unfold held skipFrom <;> rw [skipBlanks_append hws]

theorem skipToValue_append (hws : Blanks ws) :
    (skipToValue b ⟨ws ++ rest, offset⟩ >>= skipFrom (fuel + 1) .value stack) =
      (skipToValue b ⟨rest, offset + byteLength ws⟩ >>= skipFrom (fuel + 1) .value stack) := by
  cases b with
  | square => exact skipFrom_value_append hws
  | curly =>
      show (skipKey _ >>= _) = (skipKey _ >>= _)
      rw [skipKey, skipBlanks_append hws]
      rfl

theorem skipFrom_open : skipFrom (fuel + 1) .value stack ⟨b.opening :: rest, offset⟩ =
    skipFrom fuel (.more false) (held b :: stack) ⟨rest, offset + 1⟩ := by
  cases b <;> rfl

theorem skipFrom_close :
    skipFrom (fuel + 1) (.more afterItem) (held b :: outer) ⟨b.closing :: rest, offset⟩ =
      skipFrom fuel (.more true) outer ⟨rest, offset + 1⟩ := by
  cases b <;> rfl

theorem skipFrom_comma :
    skipFrom (fuel + 1) (.more true) (held b :: outer) ⟨',' :: rest, offset⟩ =
      (skipToValue b ⟨rest, offset + 1⟩ >>= skipFrom fuel .value (held b :: outer)) := by
  cases b <;> rfl

theorem skipFrom_first {x : Char} (hblank : isBlank x = false) (hclosing : x ≠ b.closing) :
    skipFrom (fuel + 1) (.more false) (held b :: outer) ⟨x :: rest, offset⟩ =
      (skipToValue b ⟨x :: rest, offset⟩ >>= skipFrom fuel .value (held b :: outer)) := by
  cases b <;> unfold held skipFrom <;> rw [skipBlanks_of_not hblank] <;> dsimp only <;> split
  · next h => cases h
  · next h => exact absurd (List.cons.inj h).1 hclosing
  · rfl
  · next h => cases h
  · next h => exact absurd (List.cons.inj h).1 hclosing
  · rfl

theorem isBlank_of_isDigit {x : Char} (hx : Text.isDigit x = true) : isBlank x = false := by
  refine Bool.eq_false_iff.2 fun h => ?_
  simp only [isBlank, Bool.or_eq_true, decide_eq_true_eq] at h
  rcases h with ((rfl | rfl) | rfl) | rfl <;> cases hx

theorem skipFrom_digit {x : Char} (hx : Text.isDigit x = true) :
    skipFrom (fuel + 1) .value stack ⟨x :: rest, offset⟩ =
      (skipNumber ⟨x :: rest, offset⟩ >>= skipFrom fuel (.more true) stack) := by
  unfold skipFrom
  rw [skipBlanks_of_not (isBlank_of_isDigit hx)]
  dsimp only
  split <;> rename_i h <;> cases h
  any_goals cases hx
  exact if_pos hx

theorem head_of_unsigned (h : Unsigned cs) :
    ∃ x tail, cs = x :: tail ∧ Text.isDigit x = true := by
  cases h with
  | parts hwhole _ _ =>
      cases hwhole with
      | zero => exact ⟨'0', _, rfl, rfl⟩
      | digits _ hdigits => exact ⟨_, _, rfl, hdigits _ List.mem_cons_self⟩

/-- A value starts with a character that is no blank and closes nothing. -/
theorem head_of_value (h : IsValue cs) :
    ∃ x tail, cs = x :: tail ∧ isBlank x = false ∧ x ≠ ']' ∧ x ≠ '}' := by
  cases h with
  | null => exact ⟨_, _, rfl, by decide⟩
  | true => exact ⟨_, _, rfl, by decide⟩
  | false => exact ⟨_, _, rfl, by decide⟩
  | string _ => exact ⟨_, _, rfl, by decide⟩
  | unsigned hcs =>
      obtain ⟨x, tail, rfl, hx⟩ := head_of_unsigned hcs
      refine ⟨x, tail, rfl, isBlank_of_isDigit hx, ?_, ?_⟩
      · rintro rfl
        cases hx
      · rintro rfl
        cases hx
  | negative _ => exact ⟨_, _, rfl, by decide⟩
  | @empty b ws _ => exact ⟨_, _, rfl, by cases b <;> decide⟩
  | @items b ws i cs _ _ _ => exact ⟨_, _, rfl, by cases b <;> decide⟩

theorem head_of_item (h : IsPart (.item b) cs) :
    ∃ x tail, cs = x :: tail ∧ isBlank x = false ∧ x ≠ b.closing := by
  cases h with
  | element hv =>
      obtain ⟨x, tail, hcs, hblank, hclosing, -⟩ := head_of_value hv
      exact ⟨x, tail, hcs, hblank, hclosing⟩
  | member _ _ _ _ => exact ⟨_, _, rfl, by decide⟩

/-- No number goes on with what follows an element or a member. -/
theorem stops_of_rest (h : IsPart (.rest b) cs) : Stops (cs ++ b.closing :: rest) := by
  have hclosing : Stops (b.closing :: rest) := stops_cons (by cases b <;> decide)
  cases h with
  | last hws => exact stops_append hws hclosing
  | more hws _ _ _ =>
      rw [List.append_assoc]
      exact stops_append hws (stops_cons (by decide))

/-- What the skipper does with a part of a text, in a number of steps that its length bounds. -/
def Skipped : Part → List Char → Prop
  | .value, cs => ∃ n, n + 2 ≤ 2 * cs.length ∧ ∀ fuel stack rest offset, Stops rest → ∃ after,
      skipFrom (fuel + n + 1) .value stack ⟨cs ++ rest, offset⟩ =
        skipFrom fuel (.more true) stack ⟨rest, after⟩
  | .item b, cs => ∃ n, n + 2 ≤ 2 * cs.length ∧ ∀ fuel outer rest offset, Stops rest → ∃ after,
      (skipToValue b ⟨cs ++ rest, offset⟩ >>= skipFrom (fuel + n + 1) .value (held b :: outer)) =
        skipFrom fuel (.more true) (held b :: outer) ⟨rest, after⟩
  | .rest b, cs => ∃ n, n ≤ 2 * cs.length ∧ ∀ fuel outer rest offset, ∃ after,
      skipFrom (fuel + n + 1) (.more true) (held b :: outer) ⟨cs ++ b.closing :: rest, offset⟩ =
        skipFrom fuel (.more true) outer ⟨rest, after⟩

/-- A value that is skipped by one step. -/
theorem Skipped.of_step (hlength : 1 ≤ cs.length)
    (h : ∀ fuel stack rest offset, Stops rest → ∃ r, Leaves r rest ∧
      skipFrom (fuel + 1) .value stack ⟨cs ++ rest, offset⟩ =
        (r >>= skipFrom fuel (.more true) stack)) : Skipped .value cs := by
  refine ⟨0, by omega, fun fuel stack rest offset hrest => ?_⟩
  obtain ⟨r, ⟨after, rfl⟩, hstep⟩ := h fuel stack rest offset hrest
  exact ⟨after, hstep⟩

theorem Skipped.empty (hws : Blanks ws) : Skipped .value (b.opening :: (ws ++ [b.closing])) := by
  refine ⟨1, ?_, fun fuel stack rest offset _ => ?_⟩
  · simp only [List.length_cons, List.length_append, List.length_nil]
    omega
  · rw [List.cons_append, List.append_assoc, skipFrom_open, skipFrom_more_append hws]
    exact ⟨_, skipFrom_close⟩

theorem Skipped.items {i : List Char} (hws : Blanks ws) (hi : IsPart (.item b) i)
    (hcs : IsPart (.rest b) cs) (hskipped : Skipped (.item b) i) (hrest : Skipped (.rest b) cs) :
    Skipped .value (b.opening :: (ws ++ (i ++ (cs ++ [b.closing])))) := by
  obtain ⟨n, hn, hitem⟩ := hskipped
  obtain ⟨m, hm, hmore⟩ := hrest
  obtain ⟨x, tail, hx, hblank, hclosing⟩ := head_of_item hi
  refine ⟨n + m + 3, ?_, fun fuel stack rest offset _ => ?_⟩
  · simp only [List.length_cons, List.length_append, List.length_nil]
    omega
  · have hfuel : fuel + (n + m + 3) = fuel + m + 1 + n + 1 + 1 := by omega
    simp only [List.cons_append, List.append_assoc, List.nil_append]
    rw [skipFrom_open, hfuel, skipFrom_more_append hws]
    have hfirst : ∀ offset, skipFrom (fuel + m + 1 + n + 1 + 1) (.more false) (held b :: stack)
        ⟨i ++ (cs ++ b.closing :: rest), offset⟩ = (skipToValue b ⟨i ++ (cs ++ b.closing :: rest),
          offset⟩ >>= skipFrom (fuel + m + 1 + n + 1) .value (held b :: stack)) := by
      intro offset
      rw [hx]
      exact skipFrom_first hblank hclosing
    rw [hfirst]
    obtain ⟨after, hitem⟩ :=
      hitem (fuel + m + 1) stack (cs ++ b.closing :: rest) _ (stops_of_rest hcs)
    rw [hitem]
    exact hmore fuel stack rest after

theorem colon_leaves (hws : Blanks ws) (rest : List Char) (offset : Nat) :
    Leaves (colon ⟨ws ++ ':' :: rest, offset⟩) rest := by
  rw [colon, skipBlanks_append hws]
  exact ⟨_, rfl⟩

theorem skipKey_leaves {key : List Char} (hkey : Characters key) (hws : Blanks ws)
    (rest : List Char) (offset : Nat) :
    Leaves (skipKey ⟨'"' :: (key ++ '"' :: (ws ++ ':' :: rest)), offset⟩) rest := by
  obtain ⟨after, hskip⟩ := skipString_leaves hkey (ws ++ ':' :: rest) (offset + 1)
  have hstep : skipKey ⟨'"' :: (key ++ '"' :: (ws ++ ':' :: rest)), offset⟩ =
      (skipString ⟨key ++ '"' :: (ws ++ ':' :: rest), offset + 1⟩ >>= colon) := rfl
  rw [hstep, hskip]
  exact colon_leaves hws rest after

theorem Skipped.member {key ws' v : List Char} (hkey : Characters key) (hws : Blanks ws)
    (hws' : Blanks ws') (hskipped : Skipped .value v) :
    Skipped (.item .curly) ('"' :: (key ++ '"' :: (ws ++ ':' :: (ws' ++ v)))) := by
  obtain ⟨n, hn, hvalue⟩ := hskipped
  refine ⟨n, ?_, fun fuel outer rest offset hrest => ?_⟩
  · simp only [List.length_cons, List.length_append]
    omega
  · simp only [List.cons_append, List.append_assoc]
    obtain ⟨after, hbefore⟩ := skipKey_leaves hkey hws (ws' ++ (v ++ rest)) offset
    rw [skipToValue, hbefore]
    show ∃ after', skipFrom (fuel + n + 1) .value _ ⟨ws' ++ (v ++ rest), after⟩ = _
    rw [skipFrom_value_append hws']
    exact hvalue fuel _ rest _ hrest

theorem Skipped.more {i ws' : List Char} (hws : Blanks ws) (hws' : Blanks ws')
    (hcs : IsPart (.rest b) cs) (hskipped : Skipped (.item b) i) (hrest : Skipped (.rest b) cs) :
    Skipped (.rest b) (ws ++ ',' :: (ws' ++ (i ++ cs))) := by
  obtain ⟨n, hn, hitem⟩ := hskipped
  obtain ⟨m, hm, hmore⟩ := hrest
  refine ⟨n + m + 2, ?_, fun fuel outer rest offset => ?_⟩
  · simp only [List.length_cons, List.length_append]
    omega
  · have hfuel : fuel + (n + m + 2) + 1 = fuel + m + 1 + n + 1 + 1 := by omega
    simp only [List.cons_append, List.append_assoc]
    rw [hfuel, skipFrom_more_append hws, skipFrom_comma, skipToValue_append hws']
    obtain ⟨after, hitem⟩ :=
      hitem (fuel + m + 1) outer (cs ++ b.closing :: rest) _ (stops_of_rest hcs)
    rw [hitem]
    exact hmore fuel outer rest after

/-- **Every part of a text is skipped exactly.** -/
theorem skipped_of_isPart (h : IsPart p cs) : Skipped p cs := by
  induction h with
  | null => exact .of_step (by decide) fun _ _ _ _ _ => ⟨_, ⟨_, rfl⟩, rfl⟩
  | true => exact .of_step (by decide) fun _ _ _ _ _ => ⟨_, ⟨_, rfl⟩, rfl⟩
  | false => exact .of_step (by decide) fun _ _ _ _ _ => ⟨_, ⟨_, rfl⟩, rfl⟩
  | string hcs =>
      refine .of_step (by simp) fun fuel stack rest offset _ => ?_
      rw [List.cons_append, List.append_assoc]
      exact ⟨_, skipString_leaves hcs rest (offset + 1), rfl⟩
  | unsigned hcs =>
      obtain ⟨x, tail, rfl, hx⟩ := head_of_unsigned hcs
      refine .of_step (by simp) fun fuel stack rest offset hrest => ?_
      exact ⟨_, skipNumber_leaves hcs hrest offset, skipFrom_digit hx⟩
  | negative hcs =>
      refine .of_step (by simp) fun fuel stack rest offset hrest => ?_
      exact ⟨_, skipNumber_leaves hcs hrest (offset + 1), rfl⟩
  | empty hws => exact .empty hws
  | items hws hi hcs ihi ihcs => exact .items hws hi hcs ihi ihcs
  | element _ ih =>
      obtain ⟨n, hn, hvalue⟩ := ih
      exact ⟨n, hn, fun fuel outer rest offset hrest => hvalue fuel _ rest offset hrest⟩
  | member hkey hws hws' _ ih => exact .member hkey hws hws' ih
  | last hws =>
      refine ⟨0, Nat.zero_le _, fun fuel outer rest offset => ?_⟩
      rw [skipFrom_more_append hws]
      exact ⟨_, skipFrom_close⟩
  | more hws hws' _ hcs ihi ihcs => exact .more hws hws' hcs ihi ihcs

/-- **A value that nothing asks for is skipped** up to what follows it, whatever it holds. -/
theorem skipValue_leaves (hws : Blanks ws) (h : IsValue cs) (hrest : Stops rest) (offset : Nat) :
    Leaves (skipValue ⟨ws ++ (cs ++ rest), offset⟩) rest := by
  obtain ⟨n, hn, hvalue⟩ := skipped_of_isPart h
  have hfuel : ∃ extra, 2 * (ws ++ (cs ++ rest)).length + 2 = extra + 1 + n + 1 := by
    refine ⟨2 * (ws ++ (cs ++ rest)).length - n, ?_⟩
    simp only [List.length_append]
    omega
  obtain ⟨extra, hfuel⟩ := hfuel
  obtain ⟨after, hskip⟩ := hvalue (extra + 1) [] rest (offset + byteLength ws) hrest
  rw [skipValue, hfuel, skipFrom_value_append hws, hskip]
  exact ⟨after, rfl⟩

end JsonReader

end LetterLang

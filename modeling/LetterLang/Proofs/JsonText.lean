import LetterLang.Proofs.JsonGrammar

/-!
# JSON texts are unambiguous

A JSON value can be read off its text, in either of the two layouts. The first character says
whether the value is a string, an array, an object, or what is written without quotes and brackets;
and each part of the text ends where it says: a string at its closing quote, an array or object at
its closing bracket, all else before the comma, bracket or blank that comes next.

- `JsonGrammar.spells_flatMap`: a string is written as a text that spells it, so it is read back.
- `Json.ofPlain?_scalarText`: so are words and numbers.
- `Json.Laid`: what the two layouts have in common.
- `Json.Laid.unambiguous`: in such a layout a text has one value.
- `Json.compact_injective`, `Json.pretty_injective`: so the text of a value identifies it.
- `Json.compact_printable`: the compact text has no control characters.
-/

namespace LetterLang

/-! ## Strings -/

namespace JsonReader

open Json (escapeChar hexDigit)

/-- A character is written with a short escape, as an escaped control character, or as itself. -/
theorem escapeChar_cases (c : Char) :
    (∃ x, escapeChar c = ['\\', x] ∧ shortEscape? x = some c ∧ x ≠ 'u' ∧ 0x20 ≤ x.toNat) ∨
    (c.toNat < 0x20 ∧ escapeChar c =
      ['\\', 'u', '0', '0', hexDigit (c.toNat / 16), hexDigit (c.toNat % 16)]) ∨
    (escapeChar c = [c] ∧ c ≠ '"' ∧ c ≠ '\\' ∧ 0x20 ≤ c.toNat) := by
  unfold escapeChar
  by_cases hquote : c = '"'
  · subst hquote
    exact .inl ⟨'"', rfl, rfl, by decide, by decide⟩
  by_cases hslash : c = '\\'
  · subst hslash
    exact .inl ⟨'\\', rfl, rfl, by decide, by decide⟩
  rw [if_neg hquote, if_neg hslash]
  split
  · next h => exact .inl ⟨'b', rfl, congrArg some h.symm, by decide, by decide⟩
  split
  · next h => exact .inl ⟨'f', rfl, congrArg some h.symm, by decide, by decide⟩
  split
  · next h => exact .inl ⟨'n', rfl, congrArg some h.symm, by decide, by decide⟩
  split
  · next h => exact .inl ⟨'r', rfl, congrArg some h.symm, by decide, by decide⟩
  split
  · next h => exact .inl ⟨'t', rfl, congrArg some h.symm, by decide, by decide⟩
  split
  · next h => exact .inr (.inl ⟨h, rfl⟩)
  · next h => exact .inr (.inr ⟨rfl, hquote, hslash, Nat.le_of_not_lt h⟩)

end JsonReader

namespace JsonGrammar

open Json (escapeChar hexDigit)

theorem isHexDigit_hexDigit {n : Nat} (h : n < 16) : IsHexDigit n (hexDigit n) :=
  ⟨h, .inl rfl⟩

theorem mem_shortEscapes {x c : Char} (h : JsonReader.shortEscape? x = some c) :
    (x, c) ∈ shortEscapes := by
  unfold JsonReader.shortEscape? at h
  split at h
  any_goals cases h
  all_goals decide

/-- **A string is written as a text that spells it.** -/
theorem spells_flatMap (cs : List Char) : Spells cs (cs.flatMap escapeChar) := by
  induction cs with
  | nil => exact .nil
  | cons c cs ih =>
      rw [List.flatMap_cons]
      rcases JsonReader.escapeChar_cases c with ⟨x, hx, hshort, -, -⟩ | ⟨hc, hx⟩ |
        ⟨hx, hquote, hslash, hc⟩
      · rw [hx]
        exact .short (mem_shortEscapes hshort) ih
      · have hzero := isHexDigit_hexDigit (n := 0) (by decide)
        have hhex := IsHex4.digits hzero hzero
          (isHexDigit_hexDigit (n := c.toNat / 16) (by omega))
          (isHexDigit_hexDigit (n := c.toNat % 16) (by omega))
        have hvalue : ((0 * 16 + 0) * 16 + c.toNat / 16) * 16 + c.toNat % 16 = c.toNat := by omega
        rw [hvalue] at hhex
        rw [hx]
        exact .unicode hhex ih
      · rw [hx]
        exact .plain ⟨hquote, hslash, hc⟩ ih

end JsonGrammar

namespace JsonReader

theorem string_quote (s : String) (rest : List Char) (offset : Nat) :
    ∃ after, string ⟨s.toList.flatMap Json.escapeChar ++ '"' :: rest, offset⟩ =
      .ok (s, ⟨rest, after⟩) := by
  have hread := string_spells (JsonGrammar.spells_flatMap s.toList) rest offset
  rwa [String.ofList_toList] at hread

end JsonReader

namespace Json

open Text (AllDigits inNumber)

variable {r r' : List Char}

theorem toList_quote (s : String) (r : List Char) :
    (quote s).toList ++ r = '"' :: (s.toList.flatMap escapeChar ++ '"' :: r) := by
  simp [quote]

/-- Two strings that are written alike, whatever follows them, are the same. -/
theorem quote_append_inj {s s' : String} (h : (quote s).toList ++ r = (quote s').toList ++ r') :
    s = s' ∧ r = r' := by
  rw [toList_quote, toList_quote] at h
  obtain ⟨after, hread⟩ := JsonReader.string_quote s r 0
  obtain ⟨after', hread'⟩ := JsonReader.string_quote s' r' 0
  rw [(List.cons.inj h).2, hread'] at hread
  cases hread
  exact ⟨rfl, rfl⟩

/-! ## Words and numbers -/

/-- The characters that words and numbers are written with. -/
def isPlain (c : Char) : Bool :=
  inNumber c || ('a' ≤ c && c ≤ 'z')

/-- What the first character of a text says about the value. -/
inductive Shape where
  | plain | string | array | object
deriving DecidableEq

def Shape.ofChar? (c : Char) : Option Shape :=
  if isPlain c then some .plain
  else if c = '"' then some .string
  else if c = '[' then some .array
  else if c = '{' then some .object
  else none

def shape : Json → Shape
  | .null | .boolean _ | .natural _ | .decimal .. => .plain
  | .string _ => .string
  | .array _ => .array
  | .object _ => .object

theorem isPlain_of_inNumber {c : Char} (h : inNumber c = true) : isPlain c = true := by
  rw [isPlain, h]
  rfl

/-- The word or number that a text stands for. -/
def ofPlain? (cs : List Char) : Option Json :=
  if cs = "null".toList then some .null
  else if cs = "true".toList then some (.boolean true)
  else if cs = "false".toList then some (.boolean false)
  else if cs.all Text.isDigit then some (.natural (Binary64.natOfDigits cs))
  else match Binary64.ofText? (String.ofList cs) with
    | some (.finite negative m) => some (.decimal negative m)
    | _ => none

theorem ofPlain?_of_inNumber {cs : List Char} (h : ∀ c ∈ cs, inNumber c = true) :
    ofPlain? cs = if cs.all Text.isDigit then some (.natural (Binary64.natOfDigits cs))
      else match Binary64.ofText? (String.ofList cs) with
        | some (.finite negative m) => some (.decimal negative m)
        | _ => none := by
  have hword : ∀ (c : Char) (word : String), c ∈ word.toList → inNumber c = false →
      cs ≠ word.toList := by
    rintro c word hc hnot rfl
    cases (h c hc).symm.trans hnot
  rw [ofPlain?, if_neg (hword 'n' "null" (by decide) (by decide)),
    if_neg (hword 't' "true" (by decide) (by decide)),
    if_neg (hword 'f' "false" (by decide) (by decide))]

theorem inNumber_decimal (negative : Bool) (m : Magnitude) :
    ∀ c ∈ (scalarText (.decimal negative m)).toList, inNumber c = true := by
  obtain ⟨d, hwritten, -⟩ := write_written m
  cases negative with
  | true => simpa [scalarText] using ⟨rfl, hwritten.inNumber⟩
  | false => simpa [scalarText] using hwritten.inNumber

theorem not_digits_decimal (negative : Bool) (m : Magnitude) :
    ¬ AllDigits (scalarText (.decimal negative m)).toList := by
  obtain ⟨d, hwritten, -⟩ := write_written m
  intro hall
  refine hwritten.not_digits fun c hc => hall c ?_
  rw [scalarText, String.toList_append]
  exact List.mem_append_right _ hc

/-- **Words and numbers are read back.** -/
theorem ofPlain?_scalarText {v : Json} (hv : v.shape = .plain) :
    ofPlain? v.scalarText.toList = some v := by
  cases v with
  | null => rfl
  | boolean value => cases value <;> rfl
  | natural n =>
      have hdigits := Binary64.allDigits_toDigits n
      have htext : (scalarText (.natural n)).toList = Nat.toDigits 10 n := toList_digitsText n
      have hall : (Nat.toDigits 10 n).all Text.isDigit = true := List.all_eq_true.2 hdigits
      rw [htext, ofPlain?_of_inNumber hdigits.inNumber, if_pos hall,
        Binary64.natOfDigits_toDigits]
  | decimal negative m =>
      have hall : ¬ (scalarText (.decimal negative m)).toList.all Text.isDigit = true :=
        fun hall => not_digits_decimal negative m (List.all_eq_true.1 hall)
      rw [ofPlain?_of_inNumber (inNumber_decimal negative m), if_neg hall, String.ofList_toList,
        ofText?_decimal]
  | string s => cases hv
  | array elements => cases hv
  | object members => cases hv

/-- Texts of words and numbers end where the next character is of another kind. -/
theorem plain_append_inj {cs ds : List Char} (hcs : ∀ c ∈ cs, isPlain c = true)
    (hds : ∀ c ∈ ds, isPlain c = true) (hr : r.head?.any isPlain = false)
    (hr' : r'.head?.any isPlain = false) (h : cs ++ r = ds ++ r') : cs = ds ∧ r = r' :=
  Text.run_append_inj hcs hds hr hr' h

theorem isPlain_scalarText {v : Json} (hv : v.shape = .plain) :
    ∀ c ∈ v.scalarText.toList, isPlain c = true := by
  cases v with
  | null => exact List.all_eq_true.1 rfl
  | boolean value => cases value <;> exact List.all_eq_true.1 rfl
  | natural n =>
      have htext : (scalarText (.natural n)).toList = Nat.toDigits 10 n := toList_digitsText n
      rw [htext]
      intro c hc
      exact isPlain_of_inNumber ((Binary64.allDigits_toDigits n).inNumber c hc)
  | decimal negative m =>
      intro c hc
      exact isPlain_of_inNumber (inNumber_decimal negative m c hc)
  | string s => cases hv
  | array elements => cases hv
  | object members => cases hv

theorem scalarText_ne_nil {v : Json} (hv : v.shape = .plain) : v.scalarText.toList ≠ [] := by
  cases v with
  | null => decide
  | boolean value => cases value <;> decide
  | natural n =>
      have htext : (scalarText (.natural n)).toList = Nat.toDigits 10 n := toList_digitsText n
      rw [htext]
      exact Nat.toDigits_ne_nil
  | decimal negative m =>
      intro hnil
      refine not_digits_decimal negative m ?_
      rw [hnil]
      exact nofun
  | string s => cases hv
  | array elements => cases hv
  | object members => cases hv

/-! ## Layouts -/

/-- How the parts of a value are set apart: what stands between a key and its value, and how a line
at a depth of nesting starts. -/
structure Layout where
  colon : String
  line : Nat → String
  blank : ∀ depth, ∀ c ∈ (line depth).toList, c = '\n' ∨ c = ' '

def Layout.oneLine : Layout :=
  ⟨":", fun _ => "", nofun⟩

def Layout.indented : Layout where
  colon := ": "
  line := newline
  blank := by
    intro depth c hc
    rw [newline, String.toList_ofList] at hc
    rcases List.mem_cons.1 hc with rfl | hc
    · exact .inl rfl
    · exact .inr (List.eq_of_mem_replicate hc)

namespace Layout

variable (L : Layout) (depth : Nat) (closing : Char)

/-- What comes after the first of some items, up to the closing bracket. -/
def after : List (List Char) → List Char
  | [] => (L.line depth).toList ++ [closing]
  | item :: items => ',' :: ((L.line (depth + 1)).toList ++ (item ++ after items))

def enclosed (opening : Char) : List (List Char) → List Char
  | [] => [opening, closing]
  | item :: items =>
    opening :: ((L.line (depth + 1)).toList ++ (item ++ L.after depth closing items))

end Layout

structure Laid (L : Layout) (text : Nat → Json → List Char) : Prop where
  scalar : ∀ depth {v}, v.shape = .plain ∨ v.shape = .string → text depth v = v.scalarText.toList
  array : ∀ depth {elements}, text depth (.array elements) =
    L.enclosed depth ']' '[' (elements.map (text (depth + 1)))
  object : ∀ depth {members}, text depth (.object members) =
    L.enclosed depth '}' '{' (members.map fun member =>
      (quote member.1).toList ++ (L.colon.toList ++ text (depth + 1) member.2))

/-- Items with commas between them, each at the start of a line. -/
theorem Layout.toList_intercalate (L : Layout) (depth : Nat) (closing : Char) (item : String)
    (items : List String) :
    (",".intercalate ((item :: items).map (L.line (depth + 1) ++ ·)) ++ L.line depth).toList ++
        [closing] =
      (L.line (depth + 1)).toList ++
        (item.toList ++ L.after depth closing (items.map String.toList)) := by
  induction items generalizing item with
  | nil => simp [after]
  | cons next items ih =>
      have hrest := ih next
      rw [List.map_cons, List.map_cons, String.intercalate_cons_cons]
      simp only [List.map_cons, String.toList_append, List.append_assoc] at hrest ⊢
      rw [hrest]
      rfl

theorem Layout.enclosed_eq (L : Layout) (depth : Nat) (opening closing : Char)
    (items : List String) :
    L.enclosed depth closing opening (items.map String.toList) =
      opening :: ((if items.isEmpty then ""
        else ",".intercalate (items.map (L.line (depth + 1) ++ ·)) ++ L.line depth).toList ++
          [closing]) := by
  cases items with
  | nil => rfl
  | cons item items =>
      exact congrArg (opening :: ·) (L.toList_intercalate depth closing item items).symm

theorem toList_bracketed (opening closing : Char) (text : String) :
    (bracketed opening closing text).toList = opening :: (text.toList ++ [closing]) := by
  rw [bracketed, Char.toString, Char.toString, String.toList_append, String.toList_append,
    String.toList_singleton, String.toList_singleton, List.append_assoc]
  rfl

theorem toList_compactItems (depth : Nat) (opening closing : Char) (items : List String) :
    opening :: ((",".intercalate items).toList ++ [closing]) =
      Layout.oneLine.enclosed depth closing opening (items.map String.toList) := by
  rw [Layout.enclosed_eq]
  cases items with
  | nil => rfl
  | cons item items => simp [Layout.oneLine]

theorem toList_prettyItems (depth : Nat) (opening closing : Char) (items : List String) :
    opening :: ((prettyBody depth (items.map (newline (depth + 1) ++ ·))).toList ++ [closing]) =
      Layout.indented.enclosed depth closing opening (items.map String.toList) := by
  rw [Layout.enclosed_eq, prettyBody, List.isEmpty_map]
  rfl

theorem compactElements_eq_map (vs : List Json) : compactElements vs = vs.map compact := by
  induction vs with
  | nil => rw [compactElements, List.map_nil]
  | cons v vs ih => rw [compactElements, List.map_cons, ih]

theorem compactMembers_eq_map (ms : List (String × Json)) :
    compactMembers ms = ms.map fun m => quote m.1 ++ ":" ++ compact m.2 := by
  induction ms with
  | nil => rw [compactMembers, List.map_nil]
  | cons m ms ih => rw [compactMembers, List.map_cons, ih, compactMember]

theorem prettyElements_eq_map (depth : Nat) (vs : List Json) :
    prettyElements depth vs = (vs.map (prettyAt depth)).map (newline depth ++ ·) := by
  induction vs with
  | nil => rw [prettyElements, List.map_nil, List.map_nil]
  | cons v vs ih => rw [prettyElements, List.map_cons, List.map_cons, ih]

theorem prettyMembers_eq_map (depth : Nat) (ms : List (String × Json)) :
    prettyMembers depth ms =
      (ms.map fun m => quote m.1 ++ ": " ++ prettyAt depth m.2).map (newline depth ++ ·) := by
  induction ms with
  | nil => rw [prettyMembers, List.map_nil, List.map_nil]
  | cons m ms ih => rw [prettyMembers, List.map_cons, List.map_cons, ih, prettyMember]

theorem map_toList_members (colon : String) (text : Json → String) (ms : List (String × Json)) :
    (ms.map fun m => quote m.1 ++ colon ++ text m.2).map String.toList =
      ms.map fun m => (quote m.1).toList ++ (colon.toList ++ (text m.2).toList) := by
  rw [List.map_map]
  refine List.map_congr_left fun m _ => ?_
  rw [Function.comp, String.toList_append, String.toList_append, List.append_assoc]

/-- **The compact layout** has everything on one line. -/
theorem laid_compact : Laid .oneLine fun _ v => v.compact.toList where
  scalar := by
    intro depth v hv
    cases v with
    | array elements => rcases hv with hv | hv <;> cases hv
    | object members => rcases hv with hv | hv <;> cases hv
    | _ => rw [compact]
  array := by
    intro depth elements
    have h := toList_compactItems depth '[' ']' (elements.map compact)
    rw [List.map_map] at h
    rw [compact, compactElements_eq_map, toList_bracketed]
    exact h
  object := by
    intro depth members
    have h := toList_compactItems depth '{' '}'
      (members.map fun m => quote m.1 ++ ":" ++ compact m.2)
    rw [map_toList_members] at h
    rw [compact, compactMembers_eq_map, toList_bracketed]
    exact h

/-- **The pretty layout** has each element and member on a line of its own. -/
theorem laid_pretty : Laid .indented fun depth v => (v.prettyAt depth).toList where
  scalar := by
    intro depth v hv
    cases v with
    | array elements => rcases hv with hv | hv <;> cases hv
    | object members => rcases hv with hv | hv <;> cases hv
    | _ => rw [prettyAt]
  array := by
    intro depth elements
    have h := toList_prettyItems depth '[' ']' (elements.map (prettyAt (depth + 1)))
    rw [List.map_map (f := prettyAt (depth + 1)) (g := String.toList)] at h
    rw [prettyAt, prettyElements_eq_map, toList_bracketed]
    exact h
  object := by
    intro depth members
    have h := toList_prettyItems depth '{' '}'
      (members.map fun m => quote m.1 ++ ": " ++ prettyAt (depth + 1) m.2)
    rw [map_toList_members] at h
    rw [prettyAt, prettyMembers_eq_map, toList_bracketed]
    exact h

/-! ## One value for a text -/

/-- What holds of words and numbers, of strings, of arrays whose elements it holds of, and of
objects whose values it holds of, holds of every value. -/
@[elab_as_elim]
theorem induct {motive : Json → Prop} (plain : ∀ v, v.shape = .plain → motive v)
    (string : ∀ s, motive (.string s))
    (array : ∀ vs, (∀ v ∈ vs, motive v) → motive (.array vs))
    (object : ∀ ms, (∀ m ∈ ms, motive m.2) → motive (.object ms)) : ∀ v, motive v
  | .null => plain _ rfl
  | .boolean _ => plain _ rfl
  | .natural _ => plain _ rfl
  | .decimal .. => plain _ rfl
  | .string s => string s
  | .array vs => array vs fun v hv =>
      have := List.sizeOf_lt_of_mem hv
      induct plain string array object v
  | .object ms => object ms fun m hm =>
      have := List.sizeOf_lt_of_mem hm
      induct plain string array object m.2
termination_by v => sizeOf v
decreasing_by
  · rw [Json.array.sizeOf_spec]
    omega
  · have hmember : sizeOf m = 1 + sizeOf m.1 + sizeOf m.2 := rfl
    rw [Json.object.sizeOf_spec]
    omega

/-- **The text of a thing says which thing it is and where it ends**, if what comes next does not go
on with a word or number. -/
def Unambiguous {α : Type} (f : α → List Char) (a : α) : Prop :=
  ∀ {b r r'}, r.head?.any isPlain = false → r'.head?.any isPlain = false →
    f a ++ r = f b ++ r' → a = b ∧ r = r'

namespace Layout

variable {α : Type} {L : Layout} {depth : Nat} {closing : Char} {f : α → List Char}
  {as bs : List α}

theorem line_cases (L : Layout) (depth : Nat) : (L.line depth).toList = [] ∨
    ∃ c cs, (L.line depth).toList = c :: cs ∧ (c = '\n' ∨ c = ' ') := by
  cases hline : (L.line depth).toList with
  | nil => exact .inl rfl
  | cons c cs => exact .inr ⟨c, cs, rfl, L.blank depth c (hline ▸ List.mem_cons_self)⟩

/-- What comes after the last item starts with a blank or with the closing bracket. -/
theorem after_nil_head (L : Layout) (depth : Nat) (closing : Char) :
    ∃ c tail, L.after depth closing [] = c :: tail ∧ (c = '\n' ∨ c = ' ' ∨ c = closing) := by
  rw [after]
  rcases L.line_cases depth with hline | ⟨c, cs, hline, rfl | rfl⟩
  · exact ⟨closing, [], by rw [hline]; rfl, .inr (.inr rfl)⟩
  · exact ⟨_, cs ++ [closing], by rw [hline]; rfl, .inl rfl⟩
  · exact ⟨_, cs ++ [closing], by rw [hline]; rfl, .inr (.inl rfl)⟩

/-- After an item nothing goes on with a word or number. -/
theorem after_stops (hclosing : closing = ']' ∨ closing = '}') (items : List (List Char)) :
    (L.after depth closing items ++ r).head?.any isPlain = false := by
  cases items with
  | nil =>
      obtain ⟨c, tail, heq, hc⟩ := L.after_nil_head depth closing
      rw [heq]
      rcases hc with rfl | rfl | rfl
      · rfl
      · rfl
      · rcases hclosing with rfl | rfl <;> rfl
  | cons item items => rfl

/-- **The items after the first can be told apart.** -/
theorem after_inj (hclosing : closing = ']' ∨ closing = '}') (hf : ∀ a ∈ as, Unambiguous f a)
    (h : L.after depth closing (as.map f) ++ r = L.after depth closing (bs.map f) ++ r') :
    as = bs ∧ r = r' := by
  -- Where one list ends the other cannot go on, since no blank or bracket is a comma.
  have hend : ∀ (a : α) (as : List α) (r r' : List Char),
      L.after depth closing ((a :: as).map f) ++ r ≠ L.after depth closing [] ++ r' := by
    intro a as r r' heq
    obtain ⟨c, tail, hnil, hc⟩ := L.after_nil_head depth closing
    rw [hnil] at heq
    have hcomma : ',' = c := (List.cons.inj heq).1
    rcases hc with rfl | rfl | rfl
    · cases hcomma
    · cases hcomma
    · rcases hclosing with rfl | rfl <;> cases hcomma
  induction as generalizing bs with
  | nil =>
      cases bs with
      | nil => exact ⟨rfl, List.append_cancel_left h⟩
      | cons b bs => exact absurd h.symm (hend b bs r' r)
  | cons a as ih =>
      cases bs with
      | nil => exact absurd h (hend a as r r')
      | cons b bs =>
          simp only [List.map_cons, after, List.cons_append, List.append_assoc, List.cons.injEq,
            true_and] at h
          obtain ⟨rfl, hrest⟩ := hf a List.mem_cons_self (after_stops hclosing _)
            (after_stops hclosing _) (List.append_cancel_left h)
          obtain ⟨rfl, hr⟩ := ih (fun a ha => hf a (List.mem_cons_of_mem _ ha)) hrest
          exact ⟨rfl, hr⟩

/-- **Items between brackets can be told apart**, if no item starts with the closing bracket. -/
theorem enclosed_inj {opening : Char} (hclosing : closing = ']' ∨ closing = '}')
    (hhead : ∀ b, ∃ c tail, f b = c :: tail ∧ c ≠ closing) (hf : ∀ a ∈ as, Unambiguous f a)
    (h : L.enclosed depth closing opening (as.map f) ++ r =
      L.enclosed depth closing opening (bs.map f) ++ r') : as = bs ∧ r = r' := by
  have hempty : ∀ (a : α) (as : List α) (r r' : List Char),
      L.enclosed depth closing opening ((a :: as).map f) ++ r ≠ opening :: closing :: r' := by
    intro a as r r' heq
    have htail := (List.cons.inj heq).2
    rcases L.line_cases (depth + 1) with hline | ⟨c, cs, hline, hc⟩
    · obtain ⟨c, tail, hitem, hne⟩ := hhead a
      rw [hline, hitem] at htail
      exact hne (List.cons.inj htail).1
    · rw [hline] at htail
      have hblank : c = closing := (List.cons.inj htail).1
      subst hblank
      rcases hc with rfl | rfl <;> rcases hclosing with h | h <;> cases h
  cases as with
  | nil =>
      cases bs with
      | nil => exact ⟨rfl, List.append_cancel_left h⟩
      | cons b bs => exact absurd h.symm (hempty b bs r' r)
  | cons a as =>
      cases bs with
      | nil => exact absurd h (hempty a as r r')
      | cons b bs =>
          simp only [List.map_cons, enclosed, List.cons_append, List.append_assoc, List.cons.injEq,
            true_and] at h
          obtain ⟨rfl, hrest⟩ := hf a List.mem_cons_self (after_stops hclosing _)
            (after_stops hclosing _) (List.append_cancel_left h)
          obtain ⟨rfl, hr⟩ :=
            after_inj hclosing (fun a ha => hf a (List.mem_cons_of_mem _ ha)) hrest
          exact ⟨rfl, hr⟩

theorem mem_enclosed {opening c : Char} {items : List (List Char)}
    (hc : c ∈ L.enclosed depth closing opening items) :
    c = opening ∨ c = closing ∨ c = ',' ∨ (∃ depth, c ∈ (L.line depth).toList) ∨
      ∃ item ∈ items, c ∈ item := by
  have hafter : ∀ items : List (List Char), c ∈ L.after depth closing items →
      c = closing ∨ c = ',' ∨ (∃ depth, c ∈ (L.line depth).toList) ∨ ∃ item ∈ items, c ∈ item := by
    intro items
    induction items with
    | nil =>
        intro hc
        rw [after, List.mem_append, List.mem_singleton] at hc
        rcases hc with hc | hc
        · exact .inr (.inr (.inl ⟨_, hc⟩))
        · exact .inl hc
    | cons item items ih =>
        intro hc
        rw [after, List.mem_cons, List.mem_append, List.mem_append] at hc
        rcases hc with hc | hc | hc | hc
        · exact .inr (.inl hc)
        · exact .inr (.inr (.inl ⟨_, hc⟩))
        · exact .inr (.inr (.inr ⟨item, List.mem_cons_self, hc⟩))
        · rcases ih hc with h | h | h | ⟨item, hitem, hc⟩
          · exact .inl h
          · exact .inr (.inl h)
          · exact .inr (.inr (.inl h))
          · exact .inr (.inr (.inr ⟨item, List.mem_cons_of_mem _ hitem, hc⟩))
  cases items with
  | nil =>
      rw [enclosed, List.mem_cons, List.mem_singleton] at hc
      rcases hc with hc | hc
      · exact .inl hc
      · exact .inr (.inl hc)
  | cons item items =>
      rw [enclosed, List.mem_cons] at hc
      rcases hc with hc | hc
      · exact .inl hc
      · exact .inr (hafter (item :: items) (List.mem_cons_of_mem _ hc))

end Layout

namespace Laid

variable {L : Layout} {text : Nat → Json → List Char}

theorem head (hlaid : Laid L text) (depth : Nat) (v : Json) :
    ∃ c tail, text depth v = c :: tail ∧ Shape.ofChar? c = some v.shape := by
  have henclosed : ∀ (opening closing : Char) (items : List (List Char)),
      ∃ tail, L.enclosed depth closing opening items = opening :: tail := by
    intro opening closing items
    cases items with
    | nil => exact ⟨_, rfl⟩
    | cons item items => exact ⟨_, rfl⟩
  cases v using Json.induct with
  | plain v hv =>
      rw [hlaid.scalar _ (.inl hv), hv]
      have hplain := isPlain_scalarText hv
      cases htext : v.scalarText.toList with
      | nil => exact absurd htext (scalarText_ne_nil hv)
      | cons c tail =>
          refine ⟨c, tail, rfl, ?_⟩
          rw [Shape.ofChar?, if_pos (hplain c (htext ▸ List.mem_cons_self))]
  | string s =>
      rw [hlaid.scalar _ (.inr rfl)]
      have hquote := toList_quote s []
      rw [List.append_nil] at hquote
      exact ⟨_, _, hquote, rfl⟩
  | array vs =>
      rw [hlaid.array]
      obtain ⟨tail, htail⟩ := henclosed '[' ']' (vs.map (text (depth + 1)))
      exact ⟨_, tail, htail, rfl⟩
  | object ms =>
      rw [hlaid.object]
      obtain ⟨tail, htail⟩ := henclosed '{' '}' _
      exact ⟨_, tail, htail, rfl⟩

theorem shape_eq (hlaid : Laid L text) {depth : Nat} {v w : Json}
    (h : text depth v ++ r = text depth w ++ r') : v.shape = w.shape := by
  obtain ⟨c, tail, hv, hc⟩ := hlaid.head depth v
  obtain ⟨c', tail', hw, hc'⟩ := hlaid.head depth w
  rw [hv, hw] at h
  rw [(List.cons.inj h).1, hc'] at hc
  exact (Option.some.inj hc).symm

/-- **A text has one value.** -/
theorem unambiguous (hlaid : Laid L text) (v : Json) : ∀ depth, Unambiguous (text depth) v := by
  induction v using Json.induct with
  | plain v hv =>
      intro depth w r r' hr hr' h
      have hw := hv ▸ (hlaid.shape_eq h).symm
      rw [hlaid.scalar _ (.inl hv), hlaid.scalar _ (.inl hw)] at h
      obtain ⟨htext, hrest⟩ :=
        plain_append_inj (isPlain_scalarText hv) (isPlain_scalarText hw) hr hr' h
      have hread := ofPlain?_scalarText hv
      rw [htext, ofPlain?_scalarText hw] at hread
      exact ⟨(Option.some.inj hread).symm, hrest⟩
  | string s =>
      intro depth w r r' hr hr' h
      have hw := hlaid.shape_eq h
      cases w with
      | string s' =>
          rw [hlaid.scalar _ (.inr rfl), hlaid.scalar _ (.inr rfl)] at h
          obtain ⟨rfl, hrest⟩ := quote_append_inj h
          exact ⟨rfl, hrest⟩
      | _ => cases hw
  | array vs ih =>
      intro depth w r r' hr hr' h
      have hw := hlaid.shape_eq h
      cases w with
      | array ws =>
          rw [hlaid.array, hlaid.array] at h
          have hhead : ∀ w, ∃ c tail, text (depth + 1) w = c :: tail ∧ c ≠ ']' := by
            intro w
            obtain ⟨c, tail, heq, hc⟩ := hlaid.head (depth + 1) w
            refine ⟨c, tail, heq, ?_⟩
            rintro rfl
            cases hc
          obtain ⟨rfl, hrest⟩ := Layout.enclosed_inj (.inl rfl) hhead (fun v hv => ih v hv _) h
          exact ⟨rfl, hrest⟩
      | _ => cases hw
  | object ms ih =>
      intro depth w r r' hr hr' h
      have hw := hlaid.shape_eq h
      cases w with
      | object ms' =>
          rw [hlaid.object, hlaid.object] at h
          have hhead : ∀ m : String × Json, ∃ c tail, (quote m.1).toList ++
              (L.colon.toList ++ text (depth + 1) m.2) = c :: tail ∧ c ≠ '}' := by
            intro m
            exact ⟨'"', _, toList_quote _ _, by decide⟩
          have hmember : ∀ m ∈ ms, Unambiguous (fun m : String × Json => (quote m.1).toList ++
              (L.colon.toList ++ text (depth + 1) m.2)) m := by
            rintro ⟨key, v⟩ hm ⟨key', v'⟩ r r' hr hr' h
            simp only [List.append_assoc] at h
            obtain ⟨rfl, hvalue⟩ := quote_append_inj h
            obtain ⟨rfl, hrest⟩ := ih _ hm _ hr hr' (List.append_cancel_left hvalue)
            exact ⟨rfl, hrest⟩
          obtain ⟨rfl, hrest⟩ := Layout.enclosed_inj (.inr rfl) hhead hmember h
          exact ⟨rfl, hrest⟩
      | _ => cases hw

theorem injective (hlaid : Laid L text) (depth : Nat) {v w : Json}
    (h : text depth v = text depth w) : v = w := by
  have hnil : text depth v ++ [] = text depth w ++ [] := congrArg (· ++ []) h
  exact (hlaid.unambiguous v depth rfl rfl hnil).1

end Laid

/-- **The compact text of a value identifies it.** -/
theorem compact_injective {v w : Json} (h : v.compact = w.compact) : v = w :=
  laid_compact.injective 0 (congrArg String.toList h)

/-- **The pretty text of a value identifies it.** -/
theorem pretty_injective {v w : Json} (h : v.pretty = w.pretty) : v = w :=
  laid_pretty.injective 0 (congrArg String.toList h)

/-! ## Control characters -/

/-- Control characters are in no word and in no number. -/
theorem isPlain_printable {c : Char} (hc : isPlain c = true) : 0x20 ≤ c.toNat := by
  apply Nat.le_of_not_lt
  intro hcontrol
  have hall : ∀ n < 0x20, isPlain (Char.ofNat n) = false := by decide
  have hnot := hall c.toNat hcontrol
  rw [Char.ofNat_toNat] at hnot
  cases hc.symm.trans hnot

theorem hexDigit_printable : ∀ n < 16, 0x20 ≤ (hexDigit n).toNat := by
  decide

theorem escapeChar_printable (d : Char) : ∀ c ∈ escapeChar d, 0x20 ≤ c.toNat := by
  rcases JsonReader.escapeChar_cases d with ⟨x, hx, -, -, hprintable⟩ | ⟨hd, hx⟩ | ⟨hx, -, -, hd⟩
  · rw [hx]
    simpa using hprintable
  · have hhigh := hexDigit_printable (d.toNat / 16) (by omega)
    have hlow := hexDigit_printable (d.toNat % 16) (by omega)
    rw [hx]
    simpa using ⟨hhigh, hlow⟩
  · rw [hx]
    simpa using hd

/-- A quoted string has no control characters: they are escaped. -/
theorem quote_printable (s : String) : ∀ c ∈ (quote s).toList, 0x20 ≤ c.toNat := by
  intro c hc
  rw [← List.append_nil (quote s).toList, toList_quote, List.mem_cons, List.mem_append,
    List.mem_singleton, List.mem_flatMap] at hc
  rcases hc with rfl | ⟨d, -, hc⟩ | rfl
  · decide
  · exact escapeChar_printable d c hc
  · decide

/-- Items on one line have no control characters but their own. -/
theorem enclosed_printable {depth : Nat} {opening closing : Char} {items : List (List Char)}
    (hopening : 0x20 ≤ opening.toNat) (hclosing : 0x20 ≤ closing.toNat)
    (hitems : ∀ item ∈ items, ∀ c ∈ item, 0x20 ≤ c.toNat) :
    ∀ c ∈ Layout.oneLine.enclosed depth closing opening items, 0x20 ≤ c.toNat := by
  intro c hc
  rcases Layout.mem_enclosed hc with rfl | rfl | rfl | ⟨depth, hline⟩ | ⟨item, hitem, hc⟩
  · exact hopening
  · exact hclosing
  · decide
  · cases hline
  · exact hitems item hitem c hc

/-- **The compact text has no control characters**, so it is one line. -/
theorem compact_printable (v : Json) : ∀ c ∈ v.compact.toList, 0x20 ≤ c.toNat := by
  induction v using Json.induct with
  | plain v hv =>
      intro c hc
      rw [laid_compact.scalar 0 (.inl hv)] at hc
      exact isPlain_printable (isPlain_scalarText hv c hc)
  | string s =>
      rw [laid_compact.scalar 0 (.inr rfl)]
      exact quote_printable s
  | array vs ih =>
      rw [laid_compact.array 0]
      refine enclosed_printable (by decide) (by decide) ?_
      intro item hitem
      obtain ⟨v, hv, rfl⟩ := List.mem_map.1 hitem
      exact ih v hv
  | object ms ih =>
      rw [laid_compact.object 0]
      refine enclosed_printable (by decide) (by decide) ?_
      intro item hitem c hc
      obtain ⟨m, hm, rfl⟩ := List.mem_map.1 hitem
      rcases List.mem_append.1 hc with hc | hc
      · exact quote_printable m.1 c hc
      rcases List.mem_append.1 hc with hc | hc
      · rw [List.mem_singleton.1 hc]
        decide
      · exact ih m hm c hc

end Json

end LetterLang

import LetterLang.Proofs.Scanning

/-!
# Lexemes in a text

A text that is put together from lexemes scans as these lexemes, if no lexeme runs on into the
text after it.

- `Lexeme.Stops t rest`: what follows does not make the lexeme longer. `Text.Separates rest` is
  enough for every lexeme.
- `Scans.lexeme`: a spelled lexeme is scanned from its text.
- `Scans.blanks`: blanks are skipped, however they are cut into runs.
-/

namespace LetterLang

open Rule (first? firstOf trivia words operators strings first?_eq_or firstOf_cons firstOf_eq_some
  firstOf_eq_none)

/-! ## What follows a lexeme -/

/-- Whether a character after the lexeme would be taken for a part of it. -/
def Lexeme.extendedBy : Lexeme → Char → Bool
  | (.number, _), c | (.keyword _, _), c | (.identifier, _), c => Text.isWord c
  | (.multiplicative, _), c => c = '=' || c = '/' || c = '*'
  | (.simpleAssign, _), c | (.additive, _), c | (.relational, _), c | (.logicalNot, _), c =>
    c = '='
  | _, _ => false

def Lexeme.Stops (t : Lexeme) (rest : List Char) : Prop :=
  ∀ c, rest.head? = some c → t.extendedBy c = false

/-- The text starts with a character that is part of no lexeme before it, or is empty. -/
def Text.Separates (rest : List Char) : Prop :=
  ∀ c, rest.head? = some c → isWord c = false ∧ c ≠ '=' ∧ c ≠ '/' ∧ c ≠ '*'

theorem Text.Separates.stops {rest : List Char} (h : Text.Separates rest) (t : Lexeme) :
    t.Stops rest := by
  intro c hc
  obtain ⟨hw, h₁, h₂, h₃⟩ := h c hc
  obtain ⟨kind, text⟩ := t
  cases kind <;> simp [Lexeme.extendedBy, hw, h₁, h₂, h₃]

/-! ## Characters -/

namespace Text

theorem isBlank_of_isWord {c : Char} (h : isWord c = true) : isBlank c = false := by
  simp only [isWord, isDigit, Bool.or_eq_true, Bool.and_eq_true, decide_eq_true_eq, Char.le_def,
    UInt32.le_iff_toNat_le] at h
  simp only [isBlank, Ranges.contains, whiteSpace, List.any_cons, List.any_nil,
    Bool.or_eq_false_iff, Bool.and_eq_false_iff, decide_eq_false_iff_not, and_true]
  rcases h with ((h | h) | h) | rfl
  · change 48 ≤ c.toNat ∧ c.toNat ≤ 57 at h
    omega
  · change 97 ≤ c.toNat ∧ c.toNat ≤ 122 at h
    omega
  · change 65 ≤ c.toNat ∧ c.toNat ≤ 90 at h
    omega
  · decide

theorem isWord_of_isDigit {c : Char} (h : isDigit c = true) : isWord c = true := by
  simp [isWord, h]

end Text

theorem Delimiter.isWord_char (d : Delimiter) : Text.isWord d.char = false := by
  cases d <;> decide

theorem Keyword.isWord_text (k : Keyword) : ∀ c ∈ k.text.toList, Text.isWord c = true :=
  List.all_eq_true.1 (by cases k <;> decide)

/-- Reserved words do not start with a digit, and are not empty. -/
theorem Keyword.head?_text (k : Keyword) :
    k.text.toList.head?.any (fun c => !Text.isDigit c) = true := by
  cases k <;> decide

theorem Keyword.find?_text (k : Keyword) : Keyword.all.find? (·.text = k.text) = some k := by
  cases k <;> decide

theorem Keyword.text_injective {k k' : Keyword} (h : k.text = k'.text) : k = k' := by
  have hk := find?_text k
  rw [h, find?_text] at hk
  exact (Option.some.inj hk).symm

/-! ## Words

A word is a run of word characters that ends where the text after it starts. -/

section Words

variable {w rest : List Char} {n : Nat}

/-- A run is taken up to the text after it. -/
theorem Text.takeWhile_append {p : Char → Bool} (hw : ∀ c ∈ w, p c = true)
    (hr : rest.head?.any p = false) : (w ++ rest).takeWhile p = w := by
  have hrest : rest.takeWhile p = [] := by
    cases rest with
    | nil => rfl
    | cons c rest =>
        have hc : p c = false := hr
        rw [List.takeWhile_cons, hc]
        rfl
  rw [List.takeWhile_append_of_pos hw, hrest, List.append_nil]

/-- Runs end where the text after them starts. -/
theorem Text.run_append_inj {p : Char → Bool} {v rest' : List Char} (hw : ∀ c ∈ w, p c = true)
    (hv : ∀ c ∈ v, p c = true) (hr : rest.head?.any p = false) (hr' : rest'.head?.any p = false)
    (h : w ++ rest = v ++ rest') : w = v ∧ rest = rest' := by
  have htake := congrArg (List.takeWhile p) h
  rw [Text.takeWhile_append hw hr, Text.takeWhile_append hv hr'] at htake
  subst htake
  exact ⟨rfl, List.append_cancel_left h⟩

theorem Pattern.matchLength_run {cls : CharClass} (hne : w ≠ [])
    (hw : ∀ c ∈ w, cls.contains c = true) (hr : rest.head?.any cls.contains = false) :
    (Pattern.run cls).matchLength (w ++ rest) = some w.length := by
  refine matchLength_eq_some.2 ⟨?_, List.length_pos_iff.2 hne⟩
  rw [accepted, Text.takeWhile_append hw hr]

theorem Pattern.eq_of_matchLength_wholeWord {word : List Char}
    (hword : ∀ c ∈ word, Text.isWord c = true) (hw : ∀ c ∈ w, Text.isWord c = true)
    (hr : rest.head?.any Text.isWord = false)
    (h : (Pattern.wholeWord word).matchLength (w ++ rest) = some n) : word = w := by
  obtain ⟨htake, hdrop⟩ := take_wholeWord h
  have hsplit : word ++ (w ++ rest).drop n = w ++ rest := by
    rw [← htake, List.take_append_drop]
  rw [← Text.takeWhile_append hword hdrop, hsplit, Text.takeWhile_append hw hr]

def Text.NoComment (cs : List Char) : Prop :=
  ∀ c rest, cs = '/' :: c :: rest → c ≠ '/' ∧ c ≠ '*'

theorem Text.NoComment.accepted {cs : List Char} (h : NoComment cs) :
    Pattern.lineComment.accepted cs = none ∧ Pattern.blockComment.accepted cs = none := by
  constructor
  · rw [Pattern.accepted.eq_def]
    split <;> simp_all [NoComment]
  · rw [Pattern.accepted.eq_def]
    split <;> simp_all [NoComment]

theorem Text.NoComment.opensComment {cs : List Char} (h : NoComment cs) :
    Scanner.opensComment cs = false := by
  unfold Scanner.opensComment
  split
  · exact absurd rfl (h _ _ rfl).2
  · rfl

/-- Text is skipped only where a blank or a comment starts. -/
theorem Rule.firstOf_trivia_eq_none {cs : List Char} (hb : cs.head?.any Text.isBlank = false)
    (hc : Text.NoComment cs) : firstOf trivia cs = none := by
  rw [firstOf_eq_none]
  intro rule hrule
  simp only [trivia, List.mem_cons, List.not_mem_nil, or_false] at hrule
  rcases hrule with rfl | rfl | rfl
  · cases cs with
    | nil => rfl
    | cons c cs =>
        have hblank : Text.isBlank c = false := hb
        simp [Pattern.matchLength, CharClass.contains, hblank]
  · rw [Pattern.matchLength, hc.accepted.1]
    rfl
  · rw [Pattern.matchLength, hc.accepted.2]
    rfl

theorem Text.noComment_of_isWord {c : Char} {cs : List Char} (hc : isWord c = true) :
    NoComment (c :: cs) := by
  intro d rest heq
  cases heq
  cases hc

theorem Rule.firstOf_delimiter_word {c : Char} {cs : List Char} (hc : Text.isWord c = true) :
    firstOf (Delimiter.all.map Rule.delimiter) (c :: cs) = none := by
  rw [firstOf_eq_none]
  intro rule hrule
  obtain ⟨d, -, rfl⟩ := List.mem_map.1 hrule
  have hd : d.char ≠ c := by
    rintro rfl
    rw [d.isWord_char] at hc
    cases hc
  simp [Rule.delimiter, Pattern.matchLength, hd]

/-- Only a reserved word is matched by the rule of one. -/
theorem Rule.firstOf_keyword_eq_some (hw : ∀ c ∈ w, Text.isWord c = true)
    (hr : rest.head?.any Text.isWord = false) {rule : Rule}
    (h : firstOf (Keyword.all.map Rule.keyword) (w ++ rest) = some (rule, n)) :
    ∃ k : Keyword, rule = Rule.keyword k ∧ k.text.toList = w := by
  obtain ⟨hmem, hm⟩ := firstOf_eq_some h
  obtain ⟨k, -, rfl⟩ := List.mem_map.1 hmem
  exact ⟨k, rfl, Pattern.eq_of_matchLength_wholeWord k.isWord_text hw hr hm⟩

/-- A word is scanned by the rules of reserved words, numbers and names. -/
theorem Rule.first?_word (hne : w ≠ []) (hw : ∀ c ∈ w, Text.isWord c = true) :
    first? (w ++ rest) = (firstOf (Keyword.all.map Rule.keyword) (w ++ rest)).or
      ((firstOf words (w ++ rest)).or
        ((firstOf operators (w ++ rest)).or (firstOf strings (w ++ rest)))) := by
  cases w with
  | nil => exact absurd rfl hne
  | cons c w =>
      have hc := hw c List.mem_cons_self
      have hblank : (c :: (w ++ rest)).head?.any Text.isBlank = false := Text.isBlank_of_isWord hc
      rw [first?_eq_or, List.cons_append,
        firstOf_trivia_eq_none hblank (Text.noComment_of_isWord hc), firstOf_delimiter_word hc]
      rfl

theorem Rule.first?_keyword (k : Keyword) (hr : rest.head?.any Text.isWord = false) :
    first? (k.text.toList ++ rest) = some (Rule.keyword k, k.text.toList.length) := by
  have hne : k.text.toList ≠ [] := by
    intro h
    have hhead := k.head?_text
    rw [h] at hhead
    cases hhead
  have hmatch := Pattern.matchLength_wholeWord hne hr
  rw [first?_word hne k.isWord_text]
  cases hfirst : firstOf (Keyword.all.map Rule.keyword) (k.text.toList ++ rest) with
  | none =>
      have hk : k ∈ Keyword.all := List.mem_of_find?_eq_some k.find?_text
      have hnone := firstOf_eq_none.1 hfirst (Rule.keyword k) (List.mem_map_of_mem hk)
      cases hnone.symm.trans hmatch
  | some found =>
      obtain ⟨rule, n⟩ := found
      obtain ⟨k', rfl, hk'⟩ := firstOf_keyword_eq_some k.isWord_text hr hfirst
      obtain rfl : k' = k := Keyword.text_injective (String.toList_inj.1 hk')
      have hn := (firstOf_eq_some hfirst).2
      cases hn.symm.trans hmatch
      rfl

theorem Rule.firstOf_keyword_eq_none (hw : ∀ c ∈ w, Text.isWord c = true)
    (hr : rest.head?.any Text.isWord = false) (hk : ∀ k : Keyword, k.text.toList ≠ w) :
    firstOf (Keyword.all.map Rule.keyword) (w ++ rest) = none := by
  cases hfirst : firstOf (Keyword.all.map Rule.keyword) (w ++ rest) with
  | none => rfl
  | some found =>
      obtain ⟨rule, n⟩ := found
      obtain ⟨k, -, heq⟩ := firstOf_keyword_eq_some hw hr hfirst
      exact absurd heq (hk k)

theorem Rule.first?_number (hne : w ≠ []) (hw : ∀ c ∈ w, Text.isDigit c = true)
    (hr : rest.head?.any Text.isWord = false) :
    first? (w ++ rest) = some (⟨some .number, .run .digit⟩, w.length) := by
  have hword : ∀ c ∈ w, Text.isWord c = true := fun c hc => Text.isWord_of_isDigit (hw c hc)
  have hk : ∀ k : Keyword, k.text.toList ≠ w := by
    rintro k rfl
    obtain ⟨c, hc, hd⟩ := (Option.any_eq_true _ _).1 k.head?_text
    rw [hw c (List.mem_of_mem_head? hc)] at hd
    cases hd
  have hr' : rest.head?.any CharClass.digit.contains = false := by
    refine (Option.any_eq_false _ _).2 fun c hc => ?_
    have hnot := (Option.any_eq_false _ _).1 hr c hc
    cases hd : Text.isDigit c with
    | true =>
        rw [Text.isWord_of_isDigit hd] at hnot
        cases hnot
    | false => exact hd
  have hrun : (Pattern.run .digit).matchLength (w ++ rest) = some w.length :=
    Pattern.matchLength_run hne hw hr'
  rw [first?_word hne hword, firstOf_keyword_eq_none hword hr hk, words, firstOf_cons, hrun]
  rfl

theorem Lexeme.isName_chars {name : String} (h : Lexeme.isName name = true) :
    (∃ c cs, name.toList = c :: cs ∧ Text.isDigit c = false) ∧
      (∀ c ∈ name.toList, Text.isWord c = true) ∧ ∀ k : Keyword, k.text.toList ≠ name.toList := by
  simp only [Lexeme.isName, Bool.and_eq_true, List.all_eq_true, decide_eq_true_eq] at h
  obtain ⟨⟨hfirst, hw⟩, hreserved⟩ := h
  obtain ⟨c, hc, hcd⟩ := (Option.any_eq_true _ _).1 hfirst
  obtain ⟨cs, hcs⟩ := List.head?_eq_some_iff.1 hc
  rw [Bool.and_eq_true, Bool.not_eq_true'] at hcd
  refine ⟨⟨c, cs, hcs, hcd.2⟩, hw, ?_⟩
  intro k heq
  have hmem : k ∈ Keyword.all := List.mem_of_find?_eq_some k.find?_text
  exact hreserved k hmem (String.toList_inj.1 heq)

theorem Rule.first?_identifier {name : String} (h : Lexeme.isName name = true)
    (hr : rest.head?.any Text.isWord = false) :
    first? (name.toList ++ rest) =
      some (⟨some .identifier, .run .word⟩, name.toList.length) := by
  obtain ⟨⟨c, cs, hcs, hcd⟩, hw, hk⟩ := Lexeme.isName_chars h
  have hne : name.toList ≠ [] := by simp [hcs]
  have hdigit : (Pattern.run .digit).matchLength (name.toList ++ rest) = none := by
    rw [hcs]
    simp [Pattern.matchLength, CharClass.contains, hcd]
  have hrun : (Pattern.run .word).matchLength (name.toList ++ rest) = some name.toList.length :=
    Pattern.matchLength_run hne hw hr
  rw [first?_word hne hw, firstOf_keyword_eq_none hw hr hk, words, firstOf_cons, hdigit,
    firstOf_cons, hrun]
  rfl

end Words

/-! ## Symbols -/

section Symbols

variable {rest : List Char}

def Text.isSymbol (c : Char) : Bool :=
  c ∈ ['=', '!', '*', '/', '+', '-', '<', '>', '&', '|', '"', '\'']

/-- Behind a symbol that starts no comment an operator or a string is scanned. -/
theorem Rule.first?_symbol {c : Char} {cs : List Char} (hc : Text.isSymbol c = true)
    (hcomment : Text.NoComment (c :: cs)) :
    first? (c :: cs) = (firstOf operators (c :: cs)).or (firstOf strings (c :: cs)) := by
  have hsymbol : c ∈ ['=', '!', '*', '/', '+', '-', '<', '>', '&', '|', '"', '\''] := by
    simpa [Text.isSymbol] using hc
  have hother : Text.isBlank c = false ∧
      firstOf (Delimiter.all.map Rule.delimiter) (c :: cs) = none ∧
      firstOf (Keyword.all.map Rule.keyword) (c :: cs) = none ∧ firstOf words (c :: cs) = none := by
    simp only [List.mem_cons, List.not_mem_nil, or_false] at hsymbol
    rcases hsymbol with rfl | rfl | rfl | rfl | rfl | rfl | rfl | rfl | rfl | rfl | rfl | rfl <;>
      exact ⟨by decide, rfl, rfl, rfl⟩
  obtain ⟨hblank, hdelimiter, hkeyword, hwords⟩ := hother
  have hblank : (c :: cs).head?.any Text.isBlank = false := hblank
  rw [first?_eq_or, firstOf_trivia_eq_none hblank hcomment, hdelimiter, hkeyword, hwords]
  rfl

theorem Text.noComment_of_ne {c : Char} {cs : List Char} (hc : c ≠ '/') :
    NoComment (c :: cs) := by
  intro d rest heq
  cases heq
  exact absurd rfl hc

theorem Pattern.matchLength_pair_eq_none {choices : List Char} {second c : Char}
    (h : rest.head? ≠ some second) :
    (Pattern.pair choices second).matchLength (c :: rest) = none := by
  cases rest with
  | nil => rfl
  | cons d rest =>
      have hd : d ≠ second := fun heq => h (congrArg some heq)
      simp [matchLength, hd]

theorem Pattern.matchLength_pairOrOne_eq_one {choices : List Char} {second c : Char}
    (hc : c ∈ choices) (h : rest.head? ≠ some second) :
    (Pattern.pairOrOne choices second).matchLength (c :: rest) = some 1 := by
  simp [matchLength, hc, h]

/-- An operator of one character is scanned where no longer one starts with it. -/
theorem Rule.firstOf_operators_single (h : rest.head? ≠ some '=') :
    (∃ p, firstOf operators ('=' :: rest) = some (⟨some .simpleAssign, p⟩, 1)) ∧
      (∀ c, c = '+' ∨ c = '-' →
        ∃ p, firstOf operators (c :: rest) = some (⟨some .additive, p⟩, 1)) ∧
      (∀ c, c = '*' ∨ c = '/' →
        ∃ p, firstOf operators (c :: rest) = some (⟨some .multiplicative, p⟩, 1)) ∧
      (∀ c, c = '<' ∨ c = '>' →
        ∃ p, firstOf operators (c :: rest) = some (⟨some .relational, p⟩, 1)) ∧
      ∃ p, firstOf operators ('!' :: rest) = some (⟨some .logicalNot, p⟩, 1) := by
  have hrelational : ∀ c ∈ ['<', '>'],
      (Pattern.pairOrOne ['<', '>'] '=').matchLength (c :: rest) = some 1 :=
    fun c hc => Pattern.matchLength_pairOrOne_eq_one hc h
  simp only [operators, firstOf_cons, Pattern.matchLength_pair_eq_none h]
  refine ⟨⟨_, rfl⟩, ?_, ?_, ?_, ⟨_, rfl⟩⟩
  · rintro c (rfl | rfl) <;> exact ⟨_, rfl⟩
  · rintro c (rfl | rfl) <;> exact ⟨_, rfl⟩
  · rintro c (rfl | rfl)
    · rw [hrelational '<' (by simp)]
      exact ⟨_, rfl⟩
    · rw [hrelational '>' (by simp)]
      exact ⟨_, rfl⟩

theorem Rule.firstOf_operators_quote {quote : Char} (hq : quote = '"' ∨ quote = '\'') :
    firstOf operators (quote :: rest) = none := by
  rcases hq with rfl | rfl <;> cases rest <;> rfl

theorem Rule.firstOf_strings_quoted {quote : Char} {body : List Char} (rest : List Char)
    (hq : quote = '"' ∨ quote = '\'') (h : quote ∉ body) :
    ∃ p, firstOf strings (quote :: (body ++ quote :: rest)) =
      some (⟨some .string, p⟩, body.length + 2) := by
  have hmatch : (Pattern.quoted quote).matchLength (quote :: (body ++ quote :: rest)) =
      some (body.length + 2) :=
    Pattern.matchLength_quoted_iff.2 ⟨body, rest, rfl, h, rfl⟩
  rcases hq with rfl | rfl
  · rw [strings, firstOf_cons, hmatch]
    exact ⟨_, rfl⟩
  · rw [strings, firstOf_cons, firstOf_cons, hmatch]
    exact ⟨_, rfl⟩

end Symbols

/-! ## Spelled lexemes -/

/-- The lexeme is what is scanned at the start of its text and the text after it. -/
def Lexeme.ScannedBefore (t : Lexeme) (rest : List Char) : Prop :=
  Text.NoComment (t.2.toList ++ rest) ∧
    ∃ pattern, first? (t.2.toList ++ rest) = some (⟨some t.1, pattern⟩, t.2.toList.length)

namespace Lexeme

variable {rest : List Char}

theorem noComment_of_words {w : List Char} (hne : w ≠ []) (hw : ∀ c ∈ w, Text.isWord c = true) :
    Text.NoComment (w ++ rest) := by
  cases w with
  | nil => exact absurd rfl hne
  | cons c w => exact Text.noComment_of_isWord (hw c List.mem_cons_self)

theorem scannedBefore_delimiter (d : Delimiter) : (delimiter d).ScannedBefore rest := by
  have htext : d.text.toList = [d.char] := by cases d <;> rfl
  refine ⟨?_, (Rule.delimiter d).pattern, ?_⟩
  · rw [delimiter, htext]
    exact Text.noComment_of_ne (by cases d <;> decide)
  · rw [delimiter, htext]
    cases d <;> rfl

theorem scannedBefore_word {t : Lexeme} (hs : t.Spelled)
    (hk : t.1 = .number ∨ (∃ k, t.1 = .keyword k) ∨ t.1 = .identifier)
    (hr : rest.head?.any Text.isWord = false) : t.ScannedBefore rest := by
  obtain ⟨kind, text⟩ := t
  rcases hk with rfl | ⟨k, rfl⟩ | rfl
  · obtain ⟨hne, hd⟩ := hs
    have hw : ∀ c ∈ text.toList, Text.isWord c = true :=
      fun c hc => Text.isWord_of_isDigit (hd c hc)
    exact ⟨noComment_of_words hne hw, _, Rule.first?_number hne hd hr⟩
  · obtain rfl : text = k.text := hs
    have hne : k.text.toList ≠ [] := by cases k <;> decide
    exact ⟨noComment_of_words hne k.isWord_text, _, Rule.first?_keyword k hr⟩
  · have hname : isName text = true := hs
    obtain ⟨⟨c, cs, hcs, -⟩, hw, -⟩ := isName_chars hname
    have hne : text.toList ≠ [] := by simp [hcs]
    exact ⟨noComment_of_words hne hw, _, Rule.first?_identifier hname hr⟩

/-- An operator or a string is scanned by its own rule. -/
theorem scannedBefore_symbol {t : Lexeme} {c : Char} {cs : List Char} {p : Pattern}
    (ht : t.2.toList = c :: cs) (hc : Text.isSymbol c = true)
    (hcomment : Text.NoComment (c :: (cs ++ rest)))
    (h : (firstOf operators (c :: (cs ++ rest))).or (firstOf strings (c :: (cs ++ rest))) =
      some (⟨some t.1, p⟩, cs.length + 1)) : t.ScannedBefore rest := by
  rw [ScannedBefore, ht]
  refine ⟨hcomment, p, ?_⟩
  rw [List.cons_append, Rule.first?_symbol hc hcomment]
  exact h

theorem scannedBefore_string {text : String} (hs : Spelled (.string, text)) :
    ScannedBefore (.string, text) rest := by
  obtain ⟨quote, body, hq, hnot, htext⟩ := hs
  have htext : text.toList = quote :: (body ++ [quote]) := htext
  obtain ⟨p, hp⟩ := Rule.firstOf_strings_quoted rest hq hnot
  refine scannedBefore_symbol (p := p) htext ?_ ?_ ?_
  · rcases hq with rfl | rfl <;> rfl
  · exact Text.noComment_of_ne (by rcases hq with rfl | rfl <;> decide)
  · rw [Rule.firstOf_operators_quote hq, List.append_assoc, List.singleton_append, hp,
      List.length_append]
    rfl

theorem scannedBefore_pair {t : Lexeme} {c d : Char} {p : Pattern} (ht : t.2.toList = [c, d])
    (hc : Text.isSymbol c = true) (hd : d ≠ '/' ∧ d ≠ '*')
    (h : firstOf operators (c :: d :: rest) = some (⟨some t.1, p⟩, 2)) :
    t.ScannedBefore rest := by
  refine scannedBefore_symbol (p := p) ht hc ?_ ?_
  · intro e rest heq
    cases heq
    exact hd
  · rw [List.singleton_append, h]
    rfl

theorem scannedBefore_single {t : Lexeme} {c : Char} (ht : t.2.toList = [c])
    (hc : Text.isSymbol c = true) (hcomment : Text.NoComment (c :: rest))
    (h : ∃ p, firstOf operators (c :: rest) = some (⟨some t.1, p⟩, 1)) :
    t.ScannedBefore rest := by
  obtain ⟨p, hp⟩ := h
  refine scannedBefore_symbol (p := p) ht hc hcomment ?_
  rw [List.nil_append, hp]
  rfl

theorem Stops.head?_ne {t : Lexeme} {c : Char} (h : t.Stops rest) (hc : t.extendedBy c = true) :
    rest.head? ≠ some c := by
  intro hhead
  rw [h c hhead] at hc
  cases hc

/-- **Spelled lexemes are scanned from their text**, unless the text after them makes them
longer. -/
theorem Spelled.scannedBefore {t : Lexeme} (hs : t.Spelled) (hstop : t.Stops rest) :
    t.ScannedBefore rest := by
  obtain ⟨kind, text⟩ := t
  cases kind with
  | endOfInput => exact hs.elim
  | number | keyword _ | identifier =>
      refine scannedBefore_word hs (by simp) ?_
      exact (Option.any_eq_false _ _).2 hstop
  | string => exact scannedBefore_string hs
  | delimiter d =>
      obtain rfl : text = d.text := hs
      exact scannedBefore_delimiter d
  | equality =>
      rcases hs with rfl | rfl <;> exact scannedBefore_pair rfl rfl (by decide) rfl
  | simpleAssign =>
      obtain rfl : text = "=" := hs
      have hsingle := Rule.firstOf_operators_single (hstop.head?_ne (c := '=') rfl)
      exact scannedBefore_single rfl rfl (Text.noComment_of_ne (by decide)) hsingle.1
  | complexAssign =>
      rcases hs with rfl | rfl | rfl | rfl <;> exact scannedBefore_pair rfl rfl (by decide) rfl
  | additive =>
      have hsingle := Rule.firstOf_operators_single (hstop.head?_ne (c := '=') rfl)
      rcases hs with rfl | rfl
      · exact scannedBefore_single rfl rfl (Text.noComment_of_ne (by decide))
          (hsingle.2.1 '+' (.inl rfl))
      · exact scannedBefore_single rfl rfl (Text.noComment_of_ne (by decide))
          (hsingle.2.1 '-' (.inr rfl))
  | multiplicative =>
      have hsingle := Rule.firstOf_operators_single (hstop.head?_ne (c := '=') rfl)
      rcases hs with rfl | rfl
      · exact scannedBefore_single rfl rfl (Text.noComment_of_ne (by decide))
          (hsingle.2.2.1 '*' (.inl rfl))
      · refine scannedBefore_single rfl rfl ?_ (hsingle.2.2.1 '/' (.inr rfl))
        -- What follows a slash must not make it the start of a comment.
        rintro c rest heq
        cases heq
        constructor
        · rintro rfl
          exact hstop.head?_ne (c := '/') rfl rfl
        · rintro rfl
          exact hstop.head?_ne (c := '*') rfl rfl
  | relational =>
      have hsingle := Rule.firstOf_operators_single (hstop.head?_ne (c := '=') rfl)
      rcases hs with rfl | rfl | rfl | rfl
      · exact scannedBefore_single rfl rfl (Text.noComment_of_ne (by decide))
          (hsingle.2.2.2.1 '<' (.inl rfl))
      · exact scannedBefore_single rfl rfl (Text.noComment_of_ne (by decide))
          (hsingle.2.2.2.1 '>' (.inr rfl))
      · exact scannedBefore_pair rfl rfl (by decide) rfl
      · exact scannedBefore_pair rfl rfl (by decide) rfl
  | logicalAnd =>
      obtain rfl : text = "&&" := hs
      exact scannedBefore_pair rfl rfl (by decide) rfl
  | logicalOr =>
      obtain rfl : text = "||" := hs
      exact scannedBefore_pair rfl rfl (by decide) rfl
  | logicalNot =>
      obtain rfl : text = "!" := hs
      have hsingle := Rule.firstOf_operators_single (hstop.head?_ne (c := '=') rfl)
      exact scannedBefore_single rfl rfl (Text.noComment_of_ne (by decide)) hsingle.2.2.2.2

end Lexeme

/-! ## Texts of lexemes and blanks -/

namespace Scans

variable {rest : List Char} {ls : List Lexeme}

theorem lexeme {t : Lexeme} (hs : t.Spelled) (hstop : t.Stops rest) (h : Scans rest ls) :
    Scans (t.2.toList ++ rest) (t :: ls) := by
  obtain ⟨hcomment, p, hfirst⟩ := hs.scannedBefore hstop
  have hrest : Scans ((t.2.toList ++ rest).drop t.2.toList.length) ls := by
    rw [List.drop_left]
    exact h
  have hscan := Scans.token hcomment.opensComment hfirst hrest
  rw [List.take_left, String.ofList_toList] at hscan
  exact hscan

/-- A run of blanks is skipped as a whole. -/
theorem first?_blank {c : Char} (rest : List Char) (hc : Text.isBlank c = true) :
    ∃ n, first? (c :: rest) = some (⟨none, .run .blank⟩, n) ∧
      (c :: rest).drop n = rest.dropWhile Text.isBlank := by
  have hrun : (Pattern.run .blank).matchLength (c :: rest) =
      some ((rest.takeWhile Text.isBlank).length + 1) := by
    simp [Pattern.matchLength, CharClass.contains, hc]
  refine ⟨(rest.takeWhile Text.isBlank).length + 1, ?_, ?_⟩
  · rw [first?_eq_or, trivia, firstOf_cons, hrun]
    rfl
  · rw [(Pattern.take_run hrun).2.1]
    exact List.dropWhile_cons_of_pos hc

theorem dropWhile_isBlank (h : Scans rest ls) : Scans (rest.dropWhile Text.isBlank) ls := by
  cases rest with
  | nil => exact h
  | cons c rest =>
      cases hc : Text.isBlank c with
      | false =>
          rw [List.dropWhile_cons_of_neg (by simp [hc])]
          exact h
      | true =>
          rw [List.dropWhile_cons_of_pos hc]
          obtain ⟨n, hfirst, hdrop⟩ := first?_blank rest hc
          cases h with
          | skip _ hr h =>
              cases hr.symm.trans hfirst
              rw [hdrop] at h
              exact h
          | token _ hr h => cases hr.symm.trans hfirst

theorem blank {c : Char} (hc : Text.isBlank c = true) (h : Scans rest ls) :
    Scans (c :: rest) ls := by
  obtain ⟨n, hfirst, hdrop⟩ := first?_blank rest hc
  have hcomment : Text.NoComment (c :: rest) := by
    refine Text.noComment_of_ne ?_
    rintro rfl
    exact absurd hc (by decide)
  refine .skip hcomment.opensComment hfirst ?_
  rw [hdrop]
  exact h.dropWhile_isBlank

theorem blanks {bs : List Char} (hb : ∀ c ∈ bs, Text.isBlank c = true) (h : Scans rest ls) :
    Scans (bs ++ rest) ls := by
  induction bs with
  | nil => exact h
  | cons c bs ih =>
      exact blank (hb c List.mem_cons_self) (ih fun d hd => hb d (List.mem_cons_of_mem _ hd))

end Scans

end LetterLang

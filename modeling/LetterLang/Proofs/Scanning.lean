import LetterLang.Token.Scanner
import LetterLang.Proofs.Lexeme

/-!
# What the scanner reads

The scanner as a relation between characters and lexemes, without offsets or a cursor.

- `Rule.first?_spelled`: the rule that applies cuts off a text that its kind can have. The order of
  the rules matters here: a word is a name because the rules of the reserved words and of numbers
  come before the rule of words.
- `Scans cs ls`: the characters `cs` are the lexemes `ls`, with text to be skipped between them.
- `exists_tokenize_iff`: the tokens of a source are what its characters scan as.
-/

namespace LetterLang

/-! ## The rule that applies -/

namespace Rule

def firstOf (rules : List Rule) (cs : List Char) : Option (Rule × Nat) :=
  rules.findSome? fun rule => (rule.pattern.matchLength cs).map (rule, ·)

variable {rules rules' : List Rule} {rule : Rule} {cs : List Char} {n : Nat}

theorem firstOf_cons : firstOf (rule :: rules) cs =
    ((rule.pattern.matchLength cs).map (rule, ·)).or (firstOf rules cs) := by
  rw [firstOf, List.findSome?_cons]
  cases rule.pattern.matchLength cs <;> rfl

theorem firstOf_append :
    firstOf (rules ++ rules') cs = (firstOf rules cs).or (firstOf rules' cs) :=
  List.findSome?_append

theorem firstOf_eq_none :
    firstOf rules cs = none ↔ ∀ rule ∈ rules, rule.pattern.matchLength cs = none := by
  simp [firstOf]

theorem firstOf_eq_some (h : firstOf rules cs = some (rule, n)) :
    rule ∈ rules ∧ rule.pattern.matchLength cs = some n := by
  obtain ⟨r, hr, hm⟩ := List.exists_of_findSome?_eq_some h
  obtain ⟨m, hm, he⟩ := Option.map_eq_some_iff.1 hm
  cases he
  exact ⟨hr, hm⟩

theorem first?_eq_or (cs : List Char) :
    first? cs = (firstOf trivia cs).or ((firstOf (Delimiter.all.map delimiter) cs).or
      ((firstOf (Keyword.all.map keyword) cs).or ((firstOf words cs).or
        ((firstOf operators cs).or (firstOf strings cs))))) := by
  show firstOf table cs = _
  simp only [table, firstOf_append, Option.or_assoc]

end Rule

namespace Pattern

attribute [simp] accepted

variable {p : Pattern} {cs : List Char} {n : Nat}

theorem matchLength_eq_some :
    p.matchLength cs = some n ↔ p.accepted cs = some n ∧ 0 < n := by
  simp [matchLength, Option.filter_eq_some_iff]

theorem take_literal {word : List Char} (h : (Pattern.literal word).matchLength cs = some n) :
    cs.take n = word := by
  obtain ⟨h, -⟩ := matchLength_eq_some.1 h
  simp only [accepted] at h
  split at h
  · next hp =>
    cases h
    exact (List.prefix_iff_eq_take.1 (List.isPrefixOf_iff_prefix.1 hp)).symm
  · cases h

theorem take_wholeWord {word : List Char} (h : (Pattern.wholeWord word).matchLength cs = some n) :
    cs.take n = word ∧ (cs.drop n).head?.any Text.isWord = false := by
  obtain ⟨h, -⟩ := matchLength_eq_some.1 h
  simp only [accepted] at h
  split at h
  · next hp =>
    cases h
    rw [Bool.and_eq_true, Bool.not_eq_true'] at hp
    exact ⟨(List.prefix_iff_eq_take.1 (List.isPrefixOf_iff_prefix.1 hp.1)).symm, hp.2⟩
  · cases h

theorem matchLength_wholeWord {word rest : List Char} (hne : word ≠ [])
    (hr : rest.head?.any Text.isWord = false) :
    (Pattern.wholeWord word).matchLength (word ++ rest) = some word.length := by
  have hp : word.isPrefixOf (word ++ rest) = true :=
    List.isPrefixOf_iff_prefix.2 (List.prefix_append word rest)
  refine matchLength_eq_some.2 ⟨?_, List.length_pos_iff.2 hne⟩
  rw [accepted, hp, List.drop_left, hr]
  rfl

theorem take_run {cls : CharClass} (h : (Pattern.run cls).matchLength cs = some n) :
    cs.take n = cs.takeWhile cls.contains ∧ cs.drop n = cs.dropWhile cls.contains ∧
      cs.takeWhile cls.contains ≠ [] := by
  obtain ⟨h, hn⟩ := matchLength_eq_some.1 h
  simp only [accepted, Option.some.injEq] at h
  have hc : cs.takeWhile cls.contains ++ cs.dropWhile cls.contains = cs :=
    List.takeWhile_append_dropWhile
  refine ⟨?_, ?_, ?_⟩
  · calc cs.take n
        = (cs.takeWhile cls.contains ++ cs.dropWhile cls.contains).take
            (cs.takeWhile cls.contains).length := by rw [hc, h]
      _ = cs.takeWhile cls.contains := List.take_left
  · calc cs.drop n
        = (cs.takeWhile cls.contains ++ cs.dropWhile cls.contains).drop
            (cs.takeWhile cls.contains).length := by rw [hc, h]
      _ = cs.dropWhile cls.contains := List.drop_left
  · intro h'
    rw [h', List.length_nil] at h
    omega

theorem take_oneOf {choices : List Char} (h : (Pattern.oneOf choices).matchLength cs = some n) :
    ∃ c ∈ choices, cs.take n = [c] := by
  obtain ⟨h, -⟩ := matchLength_eq_some.1 h
  cases cs with
  | nil => cases h
  | cons c cs =>
      simp only [accepted] at h
      split at h
      · next hc =>
        cases h
        exact ⟨c, hc, rfl⟩
      · cases h

theorem take_pair {choices : List Char} {second : Char}
    (h : (Pattern.pair choices second).matchLength cs = some n) :
    ∃ c ∈ choices, cs.take n = [c, second] := by
  obtain ⟨h, -⟩ := matchLength_eq_some.1 h
  match cs with
  | [] | [_] => cases h
  | c :: d :: cs =>
      simp only [accepted] at h
      split at h
      · next hc =>
        cases h
        exact ⟨c, hc.1, by rw [hc.2]; rfl⟩
      · cases h

theorem take_pairOrOne {choices : List Char} {second : Char}
    (h : (Pattern.pairOrOne choices second).matchLength cs = some n) :
    ∃ c ∈ choices, cs.take n = [c] ∨ cs.take n = [c, second] := by
  obtain ⟨h, -⟩ := matchLength_eq_some.1 h
  cases cs with
  | nil => cases h
  | cons c cs =>
      simp only [accepted] at h
      split at h
      · next hc =>
        refine ⟨c, hc, ?_⟩
        cases h
        split
        · next hd =>
          obtain ⟨tail, rfl⟩ := List.head?_eq_some_iff.1 hd
          exact .inr rfl
        · exact .inl rfl
      · cases h

theorem untilQuote_eq_some_iff {quote : Char} : untilQuote quote cs = some n ↔
    ∃ body rest, cs = body ++ quote :: rest ∧ quote ∉ body ∧ body.length = n := by
  constructor
  · intro h
    induction cs generalizing n with
    | nil => cases h
    | cons c cs ih =>
        rw [untilQuote] at h
        split at h
        · next hc =>
          cases h
          exact ⟨[], cs, by rw [hc]; rfl, List.not_mem_nil, rfl⟩
        · next hc =>
          obtain ⟨m, hm, rfl⟩ := Option.map_eq_some_iff.1 h
          obtain ⟨body, rest, rfl, hnot, rfl⟩ := ih hm
          refine ⟨c :: body, rest, rfl, ?_, rfl⟩
          rw [List.mem_cons, not_or]
          exact ⟨Ne.symm hc, hnot⟩
  · rintro ⟨body, rest, rfl, hnot, rfl⟩
    induction body with
    | nil => rw [List.nil_append, untilQuote, if_pos rfl, List.length_nil]
    | cons c body ih =>
        rw [List.mem_cons, not_or] at hnot
        rw [List.cons_append, untilQuote, if_neg (Ne.symm hnot.1), ih hnot.2]
        rfl

/-- A quoted text goes up to the first quote behind the one that opens it. -/
theorem matchLength_quoted_iff {quote : Char} : (Pattern.quoted quote).matchLength cs = some n ↔
    ∃ body rest, cs = quote :: body ++ quote :: rest ∧ quote ∉ body ∧ body.length + 2 = n := by
  rw [matchLength_eq_some]
  constructor
  · rintro ⟨h, -⟩
    cases cs with
    | nil => cases h
    | cons c cs =>
        simp only [accepted, Option.ite_none_right_eq_some, Option.map_eq_some_iff] at h
        obtain ⟨rfl, m, hm, rfl⟩ := h
        obtain ⟨body, rest, rfl, hnot, rfl⟩ := untilQuote_eq_some_iff.1 hm
        exact ⟨body, rest, rfl, hnot, rfl⟩
  · rintro ⟨body, rest, rfl, hnot, rfl⟩
    have hend : untilQuote quote (body ++ quote :: rest) = some body.length :=
      untilQuote_eq_some_iff.2 ⟨body, rest, rfl, hnot, rfl⟩
    refine ⟨?_, Nat.succ_pos _⟩
    rw [List.cons_append, accepted, if_pos rfl, hend]
    rfl

theorem take_quoted {quote : Char} (h : (Pattern.quoted quote).matchLength cs = some n) :
    ∃ body, quote ∉ body ∧ cs.take n = quote :: body ++ [quote] := by
  obtain ⟨body, rest, rfl, hnot, rfl⟩ := matchLength_quoted_iff.1 h
  have hlength : body.length + 2 = (quote :: body).length + 1 := rfl
  rw [hlength, List.take_length_add_append]
  exact ⟨body, hnot, rfl⟩

end Pattern

namespace Rule

open Pattern

variable {kind : TokenKind} {pattern : Pattern} {cs : List Char} {n : Nat}

theorem delimiter_spelled
    (h : firstOf (Delimiter.all.map delimiter) cs = some (⟨some kind, pattern⟩, n)) :
    Lexeme.Spelled (kind, String.ofList (cs.take n)) := by
  obtain ⟨hmem, hm⟩ := firstOf_eq_some h
  obtain ⟨d, -, he⟩ := List.mem_map.1 hmem
  cases he
  show String.ofList (cs.take n) = d.text
  rw [take_literal hm]
  rfl

theorem keyword_spelled
    (h : firstOf (Keyword.all.map keyword) cs = some (⟨some kind, pattern⟩, n)) :
    Lexeme.Spelled (kind, String.ofList (cs.take n)) := by
  obtain ⟨hmem, hm⟩ := firstOf_eq_some h
  obtain ⟨k, -, he⟩ := List.mem_map.1 hmem
  cases he
  show String.ofList (cs.take n) = k.text
  rw [(take_wholeWord hm).1, String.ofList_toList]

/-- The longest run of word characters is a name if no reserved word and no number stands there. -/
theorem isName_of_run (hk : firstOf (Keyword.all.map keyword) cs = none)
    (hd : (Pattern.run .digit).matchLength cs = none)
    (h : (Pattern.run .word).matchLength cs = some n) :
    Lexeme.isName (String.ofList (cs.take n)) = true := by
  obtain ⟨htake, hdrop, hne⟩ := take_run h
  have hall : ∀ c ∈ cs.take n, Text.isWord c = true := by
    intro c hc
    rw [htake] at hc
    exact List.all_eq_true.1 List.all_takeWhile c hc
  have hfirst : (cs.take n).head?.any (fun c => Text.isWord c && !Text.isDigit c) = true := by
    cases cs with
    | nil => simp at hne
    | cons c cs =>
        cases hw : Text.isWord c with
        | false => simp [CharClass.contains, hw] at hne
        | true =>
            cases hdig : Text.isDigit c with
            | true => simp [matchLength, accepted, CharClass.contains, hdig] at hd
            | false =>
                rw [htake]
                simp [CharClass.contains, hw, hdig]
  have hstop : (cs.drop n).head?.any Text.isWord = false := by
    have hnot := List.head?_dropWhile_not CharClass.word.contains cs
    rw [← hdrop] at hnot
    cases hhead : (cs.drop n).head? with
    | none => rfl
    | some c =>
        rw [hhead] at hnot
        exact hnot
  have hreserved : ∀ k ∈ Keyword.all, k.text ≠ String.ofList (cs.take n) := by
    -- A reserved word that is the whole run would have been matched by its own rule.
    intro k hk' heq
    have hnone := firstOf_eq_none.1 hk (keyword k) (List.mem_map_of_mem hk')
    have htext : k.text.toList = cs.take n := by rw [heq, String.toList_ofList]
    have hmatch := matchLength_wholeWord (htake ▸ hne : cs.take n ≠ []) hstop
    rw [List.take_append_drop] at hmatch
    rw [keyword, htext] at hnone
    cases hnone.symm.trans hmatch
  simp only [Lexeme.isName, String.toList_ofList, Bool.and_eq_true, List.all_eq_true,
    decide_eq_true_eq]
  exact ⟨⟨hfirst, hall⟩, hreserved⟩

theorem words_spelled (hk : firstOf (Keyword.all.map keyword) cs = none)
    (h : firstOf words cs = some (⟨some kind, pattern⟩, n)) :
    Lexeme.Spelled (kind, String.ofList (cs.take n)) := by
  rw [words, firstOf_cons, Option.or_eq_some_iff] at h
  rcases h with h | ⟨hnone, h⟩
  · obtain ⟨m, hm, he⟩ := Option.map_eq_some_iff.1 h
    cases he
    obtain ⟨htake, -, hne⟩ := take_run hm
    show (String.ofList (cs.take n)).toList ≠ [] ∧ _
    rw [String.toList_ofList, htake]
    exact ⟨hne, List.all_eq_true.1 List.all_takeWhile⟩
  · obtain ⟨hmem, hm⟩ := firstOf_eq_some h
    cases List.mem_singleton.1 hmem
    exact isName_of_run hk (Option.map_eq_none_iff.1 hnone) hm

theorem operators_spelled (h : firstOf operators cs = some (⟨some kind, pattern⟩, n)) :
    Lexeme.Spelled (kind, String.ofList (cs.take n)) := by
  obtain ⟨hmem, hm⟩ := firstOf_eq_some h
  simp only [operators, List.mem_cons, List.not_mem_nil, or_false] at hmem
  rcases hmem with he | he | he | he | he | he | he | he | he <;> cases he
  · obtain ⟨c, hc, htake⟩ := take_pair hm
    rw [htake]
    simp only [List.mem_cons, List.not_mem_nil, or_false] at hc
    rcases hc with rfl | rfl
    · exact .inl rfl
    · exact .inr rfl
  · rw [take_literal hm]
    exact rfl
  · obtain ⟨c, hc, htake⟩ := take_pair hm
    rw [htake]
    simp only [List.mem_cons, List.not_mem_nil, or_false] at hc
    rcases hc with rfl | rfl | rfl | rfl
    · exact .inl rfl
    · exact .inr (.inl rfl)
    · exact .inr (.inr (.inl rfl))
    · exact .inr (.inr (.inr rfl))
  · obtain ⟨c, hc, htake⟩ := take_oneOf hm
    rw [htake]
    simp only [List.mem_cons, List.not_mem_nil, or_false] at hc
    rcases hc with rfl | rfl
    · exact .inl rfl
    · exact .inr rfl
  · obtain ⟨c, hc, htake⟩ := take_oneOf hm
    rw [htake]
    simp only [List.mem_cons, List.not_mem_nil, or_false] at hc
    rcases hc with rfl | rfl
    · exact .inl rfl
    · exact .inr rfl
  · obtain ⟨c, hc, htake | htake⟩ := take_pairOrOne hm <;> rw [htake] <;>
      simp only [List.mem_cons, List.not_mem_nil, or_false] at hc <;> rcases hc with rfl | rfl
    · exact .inl rfl
    · exact .inr (.inl rfl)
    · exact .inr (.inr (.inl rfl))
    · exact .inr (.inr (.inr rfl))
  · rw [take_literal hm]
    exact rfl
  · rw [take_literal hm]
    exact rfl
  · rw [take_literal hm]
    exact rfl

theorem strings_spelled (h : firstOf strings cs = some (⟨some kind, pattern⟩, n)) :
    Lexeme.Spelled (kind, String.ofList (cs.take n)) := by
  obtain ⟨hmem, hm⟩ := firstOf_eq_some h
  simp only [strings, List.mem_cons, List.not_mem_nil, or_false] at hmem
  rcases hmem with he | he
  · cases he
    obtain ⟨body, hnot, htake⟩ := take_quoted hm
    exact ⟨'"', body, .inl rfl, hnot, by rw [String.toList_ofList, htake]⟩
  · cases he
    obtain ⟨body, hnot, htake⟩ := take_quoted hm
    exact ⟨'\'', body, .inr rfl, hnot, by rw [String.toList_ofList, htake]⟩

/-- **Tokens are spelled.** The rule that applies takes a text that its kind can have. -/
theorem first?_spelled (h : first? cs = some (⟨some kind, pattern⟩, n)) :
    Lexeme.Spelled (kind, String.ofList (cs.take n)) := by
  simp only [first?_eq_or, Option.or_eq_some_iff] at h
  rcases h with h | ⟨-, h | ⟨-, h | ⟨hk, h | ⟨-, h | ⟨-, h⟩⟩⟩⟩⟩
  · obtain ⟨hmem, -⟩ := firstOf_eq_some h
    simp [trivia] at hmem
  · exact delimiter_spelled h
  · exact keyword_spelled h
  · exact words_spelled hk h
  · exact operators_spelled h
  · exact strings_spelled h

end Rule

/-! ## Scanning as a relation -/

open Rule (first?)

/-- The characters are these lexemes, with text to be skipped between them. -/
inductive Scans : List Char → List Lexeme → Prop
  | nil : Scans [] []
  | skip {cs pattern n ls} : Scanner.opensComment cs = false →
      first? cs = some (⟨none, pattern⟩, n) → Scans (cs.drop n) ls → Scans cs ls
  | token {cs kind pattern n ls} : Scanner.opensComment cs = false →
      first? cs = some (⟨some kind, pattern⟩, n) → Scans (cs.drop n) ls →
      Scans cs ((kind, String.ofList (cs.take n)) :: ls)

theorem Scans.spelled {cs : List Char} {ls : List Lexeme} (h : Scans cs ls) :
    ∀ t ∈ ls, Lexeme.Spelled t := by
  induction h with
  | nil => simp
  | skip _ _ _ ih => exact ih
  | token _ hr _ ih =>
      intro t ht
      rcases List.mem_cons.1 ht with rfl | ht
      · exact Rule.first?_spelled hr
      · exact ih t ht

namespace Scanner

/-- A token that has been read stands for its lexeme; the end of the input is read where no lexeme
is left. -/
theorem next_scans {s s' : Scanner} {t : Token} (h : s.next = (.ok t, s')) :
    (t.isEnd = true → Scans s.rest []) ∧
      (t.isEnd = false → t.lexeme.Spelled ∧
        ∀ ls, Scans s'.rest ls → Scans s.rest (t.lexeme :: ls)) := by
  fun_induction next s with
  | case1 s offset hs =>
      cases h
      rw [List.isEmpty_iff.1 hs]
      refine ⟨fun _ => .nil, fun ht => ?_⟩
      simp [Token.isEnd, Token.endOfInput] at ht
  | case2 => cases h
  | case3 => cases h
  | case4 s hs hc pattern n hr ih =>
      obtain ⟨hend, htoken⟩ := ih h
      refine ⟨fun ht => .skip (by simpa using hc) hr (hend ht), fun ht => ?_⟩
      obtain ⟨hsp, hscan⟩ := htoken ht
      exact ⟨hsp, fun ls hls => .skip (by simpa using hc) hr (hscan ls hls)⟩
  | case5 s hs hc kind pattern n hr =>
      cases h
      have hsp := Rule.first?_spelled hr
      refine ⟨fun ht => ?_, fun _ => ⟨hsp, fun ls hls => .token (by simpa using hc) hr hls⟩⟩
      have hk : kind = .endOfInput := of_decide_eq_true ht
      rw [hk] at hsp
      exact hsp.elim

theorem next_of_nil {s : Scanner} (hs : s.rest = []) :
    s.next = (.ok (.endOfInput (UInt32.ofNat s.position)), s) := by
  rw [next, if_pos (List.isEmpty_iff.2 hs)]

theorem next_of_skip {s : Scanner} {pattern : Pattern} {n : Nat}
    (hc : opensComment s.rest = false) (hr : first? s.rest = some (⟨none, pattern⟩, n)) :
    s.next = (s.advance n).next := by
  rw [next, List.isEmpty_eq_false_iff.2 (rest_ne_nil hr), hc, if_neg Bool.false_ne_true,
    if_neg Bool.false_ne_true]
  split
  · next h => cases h.symm.trans hr
  · next h =>
    cases h.symm.trans hr
    rfl
  · next h => cases h.symm.trans hr

theorem next_of_token {s : Scanner} {kind : TokenKind} {pattern : Pattern} {n : Nat}
    (hc : opensComment s.rest = false) (hr : first? s.rest = some (⟨some kind, pattern⟩, n)) :
    s.next = (.ok (.ofChars kind (s.rest.take n) s.position), s.advance n) := by
  rw [next, List.isEmpty_eq_false_iff.2 (rest_ne_nil hr), hc, if_neg Bool.false_ne_true,
    if_neg Bool.false_ne_true]
  split
  · next h => cases h.symm.trans hr
  · next h => cases h.symm.trans hr
  · next h =>
    cases h.symm.trans hr
    rfl

theorem next_of_scans_nil {s : Scanner} (h : Scans s.rest []) :
    ∃ offset s', s.next = (.ok (.endOfInput offset), s') := by
  generalize hcs : s.rest = cs at h
  generalize hls : [] = ls at h
  induction h generalizing s with
  | nil => exact ⟨_, _, next_of_nil hcs⟩
  | @skip cs pattern n ls hc hr _ ih =>
      subst hcs
      rw [next_of_skip hc hr]
      exact ih rfl hls
  | token => cases hls

theorem next_of_scans_cons {s : Scanner} {l : Lexeme} {ls : List Lexeme}
    (h : Scans s.rest (l :: ls)) :
    ∃ t s', s.next = (.ok t, s') ∧ t.lexeme = l ∧ Scans s'.rest ls := by
  generalize hcs : s.rest = cs at h
  generalize hls : l :: ls = ls' at h
  induction h generalizing s with
  | nil => cases hls
  | @skip cs pattern n ls hc hr _ ih =>
      subst hcs
      rw [next_of_skip hc hr]
      exact ih rfl hls
  | @token cs kind pattern n ls hc hr h _ =>
      subst hcs
      cases hls
      exact ⟨_, _, next_of_token hc hr, rfl, h⟩

/-- What is read after some tokens stands after them, and is spelled. -/
theorem streamAfter_spelled (read : List Token) (s : Scanner) :
    ∃ ts, (s.streamAfter read).tokens = read.reverse ++ ts ∧
      (∀ t ∈ ts, t.lexeme.Spelled) ∧
      ∀ offset, (s.streamAfter read).ending = .complete offset →
        Scans s.rest (ts.map Token.lexeme) := by
  fun_induction streamAfter read s with
  | case1 read s e s' h => exact ⟨[], by simp, by simp, by simp⟩
  | case2 read s t s' h ht =>
      exact ⟨[], by simp, by simp, fun _ _ => (next_scans h).1 ht⟩
  | case3 read s t s' h ht ih =>
      obtain ⟨ts, htokens, hspelled, hscans⟩ := ih
      obtain ⟨hsp, hcons⟩ := (next_scans h).2 (by simpa using ht)
      refine ⟨t :: ts, by simp [htokens], ?_, ?_⟩
      · intro u hu
        rcases List.mem_cons.1 hu with rfl | hu
        · exact hsp
        · exact hspelled u hu
      · intro offset he
        exact hcons _ (hscans offset he)

theorem streamAfter_of_end {read : List Token} {s s' : Scanner} {t : Token}
    (h : s.next = (.ok t, s')) (ht : t.isEnd = true) :
    s.streamAfter read = ⟨read.reverse, .complete t.span.start⟩ := by
  rw [streamAfter]
  split
  · next h' => cases h'.symm.trans h
  · next h' =>
    cases h'.symm.trans h
    rw [dif_pos ht]

theorem streamAfter_of_token {read : List Token} {s s' : Scanner} {t : Token}
    (h : s.next = (.ok t, s')) (ht : t.isEnd = false) :
    s.streamAfter read = s'.streamAfter (t :: read) := by
  rw [streamAfter]
  split
  · next h' => cases h'.symm.trans h
  · next h' =>
    cases h'.symm.trans h
    rw [dif_neg (by simp [ht])]

theorem streamAfter_of_scans {s : Scanner} {ls : List Lexeme} (h : Scans s.rest ls)
    (read : List Token) :
    ∃ ts offset, s.streamAfter read = ⟨read.reverse ++ ts, .complete offset⟩ ∧
      ts.map Token.lexeme = ls := by
  induction ls generalizing s read with
  | nil =>
      obtain ⟨offset, s', hnext⟩ := next_of_scans_nil h
      refine ⟨[], offset, ?_, rfl⟩
      rw [streamAfter_of_end hnext rfl, List.append_nil]
      rfl
  | cons l ls ih =>
      obtain ⟨t, s', hnext, ht, hrest⟩ := next_of_scans_cons h
      obtain ⟨ts, offset, hstream, hts⟩ := ih hrest (t :: read)
      refine ⟨t :: ts, offset, ?_, by rw [List.map_cons, ht, hts]⟩
      have hend : t.isEnd = false := by
        have hsp : Lexeme.Spelled t.lexeme := ht ▸ h.spelled l List.mem_cons_self
        refine decide_eq_false fun hk => ?_
        rw [Token.lexeme, hk] at hsp
        exact hsp
      rw [streamAfter_of_token hnext hend, hstream, List.reverse_cons, List.append_assoc]
      rfl

end Scanner

/-- The tokens of a source are spelled, also those before a place that cannot be scanned. -/
theorem TokenStream.ofSource_spelled (source : String) :
    ∀ t ∈ (ofSource source).tokens, t.lexeme.Spelled := by
  obtain ⟨ts, htokens, hspelled, -⟩ := Scanner.streamAfter_spelled [] (.ofSource source)
  have htokens : (ofSource source).tokens = ts := htokens
  rw [htokens]
  exact hspelled

theorem tokenize_eq_ok {source : String} {ts : List Token} :
    tokenize source = .ok ts ↔ ∃ offset, TokenStream.ofSource source = ⟨ts, .complete offset⟩ := by
  rw [tokenize]
  cases TokenStream.ofSource source with
  | mk tokens ending => cases ending <;> simp

/-- **Tokens are what the characters scan as.** -/
theorem exists_tokenize_iff {source : String} {ls : List Lexeme} :
    (∃ ts, tokenize source = .ok ts ∧ ts.map Token.lexeme = ls) ↔ Scans source.toList ls := by
  constructor
  · rintro ⟨ts, htokens, rfl⟩
    obtain ⟨offset, hstream⟩ := tokenize_eq_ok.1 htokens
    obtain ⟨ts', htokens', -, hscans⟩ := Scanner.streamAfter_spelled [] (.ofSource source)
    change (TokenStream.ofSource source).tokens = ts' at htokens'
    rw [hstream] at htokens'
    subst htokens'
    exact hscans offset (congrArg TokenStream.ending hstream)
  · intro h
    obtain ⟨ts, offset, hstream, hts⟩ := Scanner.streamAfter_of_scans (s := .ofSource source) h []
    exact ⟨ts, tokenize_eq_ok.2 ⟨offset, hstream⟩, hts⟩

end LetterLang

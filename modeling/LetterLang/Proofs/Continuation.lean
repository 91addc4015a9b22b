import LetterLang.Proofs.Truncation

/-!
# Scanning a source that goes on

A source is continued on a new line. What the scanner has read up to the end of the source, it reads
again: no token runs on over a newline, and a comment or a string that is closed stays closed. Only
a run of blanks at the end of the source becomes longer.

- `Rule.first?_newline`: the rule that applies stays the same.
- `Scanner.Passes.newline`: the scanner takes the same way, up to the first character of the
  continuation that is no blank.
- `TokenStream.ofSource_continued`: the stream of a source that is cut off and goes on with one
  lexeme on a new line.
-/

namespace LetterLang

open Text (byteLength isBlank)

/-! ## Patterns and newlines -/

namespace Pattern

variable {p : Pattern} {cs : List Char} {n : Nat}

def withinLine : Pattern → Bool
  | .run cls => !cls.contains '\n'
  | .literal word | .wholeWord word => '\n' ∉ word
  | .oneOf choices => '\n' ∉ choices
  | .pair choices second | .pairOrOne choices second => '\n' ∉ choices ∧ '\n' ≠ second
  | .lineComment => true
  | .blockComment | .quoted _ => false

theorem newline_not_mem_take (hp : p.withinLine = true) (h : p.matchLength cs = some n) :
    '\n' ∉ cs.take n := by
  cases p with
  | run cls =>
      rw [(take_run h).1]
      intro hmem
      have hin : cls.contains '\n' = true := List.all_eq_true.1 List.all_takeWhile _ hmem
      simp [withinLine, hin] at hp
  | literal word =>
      rw [take_literal h]
      simpa [withinLine] using hp
  | wholeWord word =>
      rw [(take_wholeWord h).1]
      simpa [withinLine] using hp
  | oneOf choices =>
      obtain ⟨c, hc, htake⟩ := take_oneOf h
      rw [htake, List.mem_singleton]
      rintro rfl
      simp [withinLine, hc] at hp
  | pair choices second =>
      obtain ⟨c, hc, htake⟩ := take_pair h
      simp only [withinLine, decide_eq_true_eq] at hp
      rw [htake, List.mem_cons, List.mem_singleton]
      rintro (rfl | rfl)
      · exact hp.1 hc
      · exact hp.2 rfl
  | pairOrOne choices second =>
      obtain ⟨c, hc, htake⟩ := take_pairOrOne h
      simp only [withinLine, decide_eq_true_eq] at hp
      rcases htake with htake | htake <;> rw [htake]
      · rw [List.mem_singleton]
        rintro rfl
        exact hp.1 hc
      · rw [List.mem_cons, List.mem_singleton]
        rintro (rfl | rfl)
        · exact hp.1 hc
        · exact hp.2 rfl
  | lineComment =>
      obtain ⟨body, htake, hnot, -⟩ := take_lineComment h
      rw [htake]
      simpa using hnot
  | blockComment => cases hp
  | quoted quote => cases hp

end Pattern

/-! ## The rule that applies -/

namespace Rule

open Pattern

variable {rule : Rule} {cs tail : List Char} {n : Nat}

/-- Only blanks, block comments and strings go over the end of a line. -/
theorem table_withinLine : ∀ rule ∈ table, rule.pattern.withinLine = true ∨
    rule.pattern = .run .blank ∨ rule.pattern = .blockComment ∨ rule.pattern = .quoted '"' ∨
      rule.pattern = .quoted '\'' := by
  decide +kernel

/-- What stands at the start of a text and holds no newline does not reach over one. -/
theorem prefix_of_newline {word : List Char} (hword : '\n' ∉ word)
    (h : word <+: cs ++ '\n' :: tail) : word <+: cs := by
  rcases List.prefix_or_prefix_of_prefix h (List.prefix_append cs _) with hle | ⟨more, rfl⟩
  · exact hle
  · cases more with
    | nil => exact ⟨[], by simp⟩
    | cons c more =>
        obtain ⟨rfl, -⟩ := List.cons_prefix_cons.1 ((List.prefix_append_right_inj cs).1 h)
        exact absurd (List.mem_append_right cs List.mem_cons_self) hword

/-- A comment that is open behind the newline is open before it. -/
theorem opensComment_newline (hc : Scanner.opensComment cs = false) :
    Scanner.opensComment (cs ++ '\n' :: tail) = false := by
  rw [Scanner.opensComment_eq_false_iff] at hc ⊢
  intro hstart
  obtain ⟨n, hn⟩ := hc (prefix_of_newline (by decide) hstart)
  exact ⟨n, matchLength_blockComment_append hn _⟩

theorem pattern_of_first?_quote {quote : Char} (hq : quote = '"' ∨ quote = '\'')
    (h : first? (quote :: cs) = some (rule, n)) : rule.pattern = .quoted quote := by
  have hcomment : Text.NoComment (quote :: cs) := by
    refine Text.noComment_of_ne ?_
    rcases hq with rfl | rfl <;> decide
  have hsymbol : Text.isSymbol quote = true := by rcases hq with rfl | rfl <;> decide
  rw [first?_symbol hsymbol hcomment, firstOf_operators_quote hq, Option.none_or] at h
  obtain ⟨hmem, hmatch⟩ := firstOf_eq_some h
  have hopens : ∀ q, (Pattern.quoted q).matchLength (quote :: cs) = some n → q = quote := by
    intro q hquoted
    obtain ⟨body, rest, heq, -⟩ := matchLength_quoted_iff.1 hquoted
    cases heq
    rfl
  simp only [strings, List.mem_cons, List.not_mem_nil, or_false] at hmem
  rcases hmem with rfl | rfl
  · rw [hopens '"' hmatch]
  · rw [hopens '\'' hmatch]

theorem pattern_of_first?_blank {c : Char} (hc : isBlank c = true)
    (h : first? (c :: cs) = some (rule, n)) : rule.pattern = .run .blank := by
  have hlongest := isLongest_of_first? h
  have hfamily := family_of_matchLength (table_isUniform rule hlongest.mem) hlongest.length
  rw [Text.family, if_pos hc] at hfamily
  unfold family at hfamily
  split at hfamily
  · assumption
  · cases hfamily
  · cases hfamily
  · cases hfamily
  · cases hfamily

theorem length_le_of_withinLine {p : Pattern} {m : Nat} (hp : p.withinLine = true)
    (h : p.matchLength (cs ++ '\n' :: tail) = some m) : m ≤ cs.length := by
  have hnot := newline_not_mem_take hp h
  refine Nat.le_of_not_lt fun hlt => hnot ?_
  obtain ⟨extra, rfl⟩ := Nat.exists_eq_add_of_lt hlt
  rw [Nat.add_assoc, List.take_length_add_append]
  exact List.mem_append_right _ List.mem_cons_self

/-- A run of blanks that stops before the end of the text does not reach the newline. -/
theorem length_le_of_blanks {m : Nat} (h : first? cs = some (rule, n))
    (hblank : rule.pattern = .run .blank → n < cs.length)
    (h' : (Pattern.run .blank).matchLength (cs ++ '\n' :: tail) = some m) : m ≤ cs.length := by
  have hmatch := (isLongest_of_first? h).length
  obtain ⟨c, cs, rfl⟩ := exists_cons_of_first? h
  have hrun := pattern_of_first?_blank (contains_of_run h') h
  have hlt := hblank hrun
  rw [hrun] at hmatch
  have hn := (matchLength_eq_some.1 hmatch).1
  have hm := (matchLength_eq_some.1 h').1
  simp only [accepted, Option.some.injEq] at hn hm
  rw [List.takeWhile_append, if_neg (by omega), hn] at hm
  omega

theorem length_le_of_blockComment {m : Nat} (hc : Scanner.opensComment cs = false)
    (h' : Pattern.blockComment.matchLength (cs ++ '\n' :: tail) = some m) : m ≤ cs.length := by
  obtain ⟨body, rest, heq, -⟩ := matchLength_blockComment_iff.1 h'
  have hstart : ['/', '*'] <+: cs ++ '\n' :: tail := ⟨body ++ '*' :: '/' :: rest, heq.symm⟩
  obtain ⟨k, hk⟩ := Scanner.opensComment_eq_false_iff.1 hc (prefix_of_newline (by decide) hstart)
  obtain rfl : k = m := Option.some.inj ((matchLength_blockComment_append hk _).symm.trans h')
  exact matchLength_le hk

theorem length_le_of_quoted {quote : Char} {m : Nat} (hq : quote = '"' ∨ quote = '\'')
    (h : first? cs = some (rule, n))
    (h' : (Pattern.quoted quote).matchLength (cs ++ '\n' :: tail) = some m) : m ≤ cs.length := by
  have hmatch := (isLongest_of_first? h).length
  obtain ⟨c, cs, rfl⟩ := exists_cons_of_first? h
  obtain ⟨body, rest, heq, -⟩ := matchLength_quoted_iff.1 h'
  obtain rfl : c = quote := (List.cons.inj heq).1
  rw [pattern_of_first?_quote hq h] at hmatch
  obtain rfl : n = m := Option.some.inj ((matchLength_quoted_append hmatch _).symm.trans h')
  exact matchLength_le hmatch

/-- A match that goes over the newline is one of a run of blanks. -/
theorem length_le_of_newline {rule' : Rule} {m : Nat} (hc : Scanner.opensComment cs = false)
    (h : first? cs = some (rule, n)) (hblank : rule.pattern = .run .blank → n < cs.length)
    (h' : first? (cs ++ '\n' :: tail) = some (rule', m)) : m ≤ cs.length := by
  have hmatch' := (isLongest_of_first? h').length
  rcases table_withinLine rule' (isLongest_of_first? h').mem with hline | hp | hp | hp | hp
  · exact length_le_of_withinLine hline hmatch'
  · exact length_le_of_blanks h hblank (hp ▸ hmatch')
  · exact length_le_of_blockComment hc (hp ▸ hmatch')
  · exact length_le_of_quoted (.inl rfl) h (hp ▸ hmatch')
  · exact length_le_of_quoted (.inr rfl) h (hp ▸ hmatch')

/-- **The rule that applies does not change with a newline**, unless it is a run of blanks up to
the end. -/
theorem first?_newline (hc : Scanner.opensComment cs = false) (h : first? cs = some (rule, n))
    (hblank : rule.pattern = .run .blank → n < cs.length) :
    first? (cs ++ '\n' :: tail) = some (rule, n) := by
  cases h' : first? (cs ++ '\n' :: tail) with
  | none =>
      have hnone : ∀ rule' ∈ table, rule'.pattern.matchLength (cs ++ '\n' :: tail) = none :=
        firstOf_eq_none.1 h'
      have hlongest := isLongest_of_first? h
      by_cases hp : ∃ word, rule.pattern = .wholeWord word
      · obtain ⟨word, hp⟩ := hp
        obtain ⟨c, cs, rfl⟩ := exists_cons_of_first? h
        have hidentifier := hnone ⟨some .identifier, .run .word⟩ (by simp [table, words])
        have hword : Text.isWord c = false := contains_of_run_eq_none hidentifier
        have hfamily := family_of_matchLength (table_isUniform rule hlongest.mem) hlongest.length
        rw [hp, Text.family, hword] at hfamily
        split at hfamily <;> cases hfamily
      · have hp : ∀ word, rule.pattern ≠ .wholeWord word := fun word heq => hp ⟨word, heq⟩
        exact absurd (hnone rule hlongest.mem) (matchLength_append hp hlongest.length _)
  | some found =>
      obtain ⟨rule', m⟩ := found
      exact (first?_of_append h' (length_le_of_newline hc h hblank h')).symm.trans h

end Rule

/-! ## The scanner -/

namespace Scanner

variable {s s' : Scanner} {ts : List Token}

theorem Passes.eq_of_nil (h : Passes s ts s') (hnil : s.rest = []) : ts = [] ∧ s' = s := by
  cases h with
  | done => exact ⟨rfl, rfl⟩
  | skip _ hr _ =>
      rw [hnil] at hr
      cases hr
  | token _ hr _ =>
      rw [hnil] at hr
      cases hr

theorem advance_append (source : String) (position : Nat) {cs rest : List Char} {n : Nat}
    (hn : n ≤ cs.length) : (⟨source, position, cs ++ rest⟩ : Scanner).advance n =
      ⟨source, position + byteLength (cs.take n), cs.drop n ++ rest⟩ := by
  rw [advance, List.take_append_of_le_length hn, List.drop_append_of_le_length hn]

/-- A run of blanks is passed as a whole. -/
theorem passes_run {blanks rest : List Char} (hne : blanks ≠ [])
    (hblanks : ∀ c ∈ blanks, isBlank c = true) (hrest : rest.head?.any isBlank = false)
    (source : String) (position : Nat) :
    Passes ⟨source, position, blanks ++ rest⟩ []
      ⟨source, position + byteLength blanks, rest⟩ := by
  have hrun : (Pattern.run .blank).matchLength (blanks ++ rest) = some blanks.length :=
    Pattern.matchLength_run hne hblanks hrest
  have hfirst : Rule.first? (blanks ++ rest) = some (⟨none, .run .blank⟩, blanks.length) := by
    rw [Rule.first?_eq_or, Rule.trivia, Rule.firstOf_cons, hrun]
    rfl
  have hcomment : opensComment (blanks ++ rest) = false := by
    obtain ⟨c, blanks, rfl⟩ := List.exists_cons_of_ne_nil hne
    refine (Text.noComment_of_ne ?_).opensComment
    rintro rfl
    exact absurd (hblanks _ List.mem_cons_self) (by decide)
  refine .skip hcomment hfirst ?_
  rw [advance_append source position (Nat.le_refl _), List.take_length, List.drop_length]
  exact .done

/-- Blanks at the end of a source go on behind the newline. -/
theorem passes_blanks {bs : List Char} (hbs : ∀ c ∈ bs, isBlank c = true) (source : String)
    (position : Nat) (tail : List Char) :
    Passes ⟨source, position, bs ++ '\n' :: tail⟩ [] ⟨source,
      position + byteLength bs + 1 + byteLength (tail.takeWhile isBlank),
      tail.dropWhile isBlank⟩ := by
  have hblanks : ∀ c ∈ bs ++ '\n' :: tail.takeWhile isBlank, isBlank c = true := by
    intro c hc
    rcases List.mem_append.1 hc with hc | hc
    · exact hbs c hc
    · rcases List.mem_cons.1 hc with rfl | hc
      · decide
      · exact List.all_eq_true.1 List.all_takeWhile c hc
  have hpasses := passes_run (by simp) hblanks (Text.head?_dropWhile isBlank tail) source position
  have hsize : '\n'.utf8Size = 1 := rfl
  rw [List.append_assoc, List.cons_append, List.takeWhile_append_dropWhile, Text.byteLength_append,
    Text.byteLength_cons, hsize, ← Nat.add_assoc, ← Nat.add_assoc] at hpasses
  exact hpasses

/-- **The scanner takes the same way through a source that goes on** on a new line. -/
theorem Passes.newline (h : Passes s ts s') (hnil : s'.rest = []) (source : String)
    (tail : List Char) :
    Passes ⟨source, s.position, s.rest ++ '\n' :: tail⟩ ts
      ⟨source, s'.position + 1 + byteLength (tail.takeWhile isBlank), tail.dropWhile isBlank⟩ := by
  induction h with
  | @done s =>
      rw [hnil]
      exact passes_blanks (by simp) source s.position tail
  | @skip s s' pattern n ts hc hr h ih =>
      have hn := Pattern.matchLength_le (Rule.isLongest_of_first? hr).length
      by_cases hblank : pattern = .run .blank → n < s.rest.length
      · refine .skip (Rule.opensComment_newline hc) (Rule.first?_newline hc hr hblank) ?_
        rw [advance_append source s.position hn]
        exact ih hnil
      · obtain ⟨rfl, hle⟩ := Classical.not_imp.1 hblank
        obtain rfl : n = s.rest.length := Nat.le_antisymm hn (Nat.le_of_not_lt hle)
        have hend : (s.advance s.rest.length).rest = [] := List.drop_length
        obtain ⟨rfl, rfl⟩ := h.eq_of_nil hend
        have hall : ∀ c ∈ s.rest, isBlank c = true := by
          have hrun := (Pattern.take_run (Rule.isLongest_of_first? hr).length).1
          rw [List.take_length] at hrun
          rw [hrun]
          exact List.all_eq_true.1 List.all_takeWhile
        have hpasses := passes_blanks hall source s.position tail
        rwa [advance, List.take_length]
  | @token s s' kind pattern n ts hc hr h ih =>
      have hn := Pattern.matchLength_le (Rule.isLongest_of_first? hr).length
      have hblank : pattern = .run .blank → n < s.rest.length := by
        rintro rfl
        obtain ⟨hhead, -⟩ := Rule.noTrivia_of_first? hc hr
        have hrun := (Rule.isLongest_of_first? hr).length
        obtain ⟨c, cs, hrest⟩ := List.exists_cons_of_ne_nil (List.ne_nil_of_mem
          (List.mem_of_mem_take (List.head_mem (take_ne_nil hr))))
        rw [hrest] at hhead hrun
        have hc : isBlank c = true := Pattern.contains_of_run hrun
        rw [List.head?_cons, Option.any_some, hc] at hhead
        cases hhead
      have htoken := Passes.token (s := ⟨source, s.position, s.rest ++ '\n' :: tail⟩)
        (Rule.opensComment_newline hc) (Rule.first?_newline hc hr hblank)
        (advance_append source s.position hn ▸ ih hnil)
      rwa [List.take_append_of_le_length hn] at htoken

/-- A lexeme at the end of the source is read as a token. -/
theorem passes_lexeme {k : TokenKind} {w : String} (hw : Lexeme.Spelled (k, w)) (source : String)
    (position : Nat) :
    Passes ⟨source, position, w.toList⟩ [.ofChars k w.toList position]
      ⟨source, position + byteLength w.toList, []⟩ := by
  have hscanned : Lexeme.ScannedBefore (k, w) [] := hw.scannedBefore nofun
  obtain ⟨hcomment, pattern, hfirst⟩ := hscanned
  rw [List.append_nil] at hcomment hfirst
  have hpasses := Passes.token (s := ⟨source, position, w.toList⟩) hcomment.opensComment hfirst .done
  rwa [advance, List.take_length, List.drop_length] at hpasses

end Scanner

theorem Lexeme.Spelled.head?_not_blank {k : TokenKind} {w : String} (hw : Lexeme.Spelled (k, w)) :
    w.toList.head?.any isBlank = false := by
  have hscanned : Lexeme.ScannedBefore (k, w) [] := hw.scannedBefore nofun
  obtain ⟨hcomment, pattern, hfirst⟩ := hscanned
  rw [List.append_nil] at hcomment hfirst
  exact (Rule.noTrivia_of_first? hcomment.opensComment hfirst).1

/-- **A source that is cut off and goes on with a lexeme on a new line** has the tokens before the
cut and that lexeme. -/
theorem TokenStream.ofSource_continued {source : String} {ts : List Token} {s' : Scanner}
    (h : Scanner.Passes (.ofSource source) ts s') :
    ∃ before after, source = before ++ after ∧ before.utf8ByteSize = s'.position ∧
      ∀ k w, Lexeme.Spelled (k, w) → ofSource (before ++ "\n" ++ w) =
        ⟨ts ++ [.ofChars k w.toList (s'.position + 1)],
          .complete (UInt32.ofNat (before ++ "\n" ++ w).utf8ByteSize)⟩ := by
  obtain ⟨before, after, hsource, hbytes, hrest⟩ := h.exists_append
  refine ⟨before, after, hsource, hbytes, fun k w hw => ?_⟩
  generalize hq : before ++ "\n" ++ w = q
  have hchars : q.toList = before.toList ++ '\n' :: w.toList := by
    rw [← hq, String.toList_append, String.toList_append, List.append_assoc]
    rfl
  have hsize : q.utf8ByteSize = s'.position + 1 + byteLength w.toList := by
    have hnewline : '\n'.utf8Size = 1 := rfl
    rw [Text.utf8ByteSize_eq] at hbytes
    rw [Text.utf8ByteSize_eq, hchars, Text.byteLength_append, Text.byteLength_cons, hbytes]
    omega
  have hfirst := (h.truncate hrest q).newline rfl q w.toList
  have hblanks : ([] ++ w.toList).takeWhile isBlank = [] :=
    Text.takeWhile_append (by simp) hw.head?_not_blank
  rw [List.nil_append] at hblanks
  have hword : w.toList.dropWhile isBlank = w.toList := by
    have hsplit := List.takeWhile_append_dropWhile (p := isBlank) (l := w.toList)
    rwa [hblanks, List.nil_append] at hsplit
  rw [hblanks, hword] at hfirst
  have hpasses := hfirst.trans (Scanner.passes_lexeme hw q _)
  have hhalts : Scanner.Halts ⟨q, s'.position + 1 + byteLength w.toList, []⟩ := .inr rfl
  have hstream := hpasses.streamAfter_eq []
  rw [Text.byteLength_nil, Nat.add_zero, Scanner.streamAfter_of_halts hhalts, List.append_nil,
    List.reverse_reverse] at hstream
  rw [ofSource, Scanner.ofSource, hchars, hsize]
  exact hstream

end LetterLang

import LetterLang.Proofs.LongestMatch

/-!
# Scanning a truncated source

The scanner looks ahead, but what it has read does not depend on what comes later: a source that is
cut off at a cursor on its way gives the same tokens up to the cut, and then ends.

- `Pattern.matchLength_of_append`: a match that lies before the cut stays a match.
- `Rule.first?_of_append`: so does the rule that applies. A keyword could come about where the cut
  goes through a longer word, but no cursor stands there.
- `Scanner.Passes.truncate`: the scanner takes the same way through the truncated source.
-/

namespace LetterLang

open Text (byteLength isDigit isWord)

/-! ## Patterns -/

namespace Pattern

variable {p : Pattern} {cs rest : List Char} {n m : Nat}

theorem takeWhile_of_append {f : Char → Bool}
    (h : ((cs ++ rest).takeWhile f).length ≤ cs.length) :
    cs.takeWhile f = (cs ++ rest).takeWhile f := by
  rw [List.takeWhile_append] at h ⊢
  split
  · next hall =>
    rw [if_pos hall, List.length_append] at h
    have hnil : rest.takeWhile f = [] := List.length_eq_zero_iff.1 (by omega)
    rw [hnil, List.append_nil]
    exact (List.takeWhile_prefix f).eq_of_length hall
  · rfl

theorem prefix_of_append {text : List Char} (h : text <+: cs ++ rest)
    (hn : text.length ≤ cs.length) : text <+: cs :=
  List.prefix_of_prefix_length_le h (List.prefix_append cs rest) hn

/-- A match that lies before the cut stays a match. -/
theorem matchLength_of_append (h : p.matchLength (cs ++ rest) = some n) (hn : n ≤ cs.length) :
    p.matchLength cs = some n := by
  have hmatch := h
  obtain ⟨h, hpos⟩ := matchLength_eq_some.1 h
  refine matchLength_eq_some.2 ⟨?_, hpos⟩
  cases p with
  | run cls =>
      simp only [accepted, Option.some.injEq] at h ⊢
      rw [takeWhile_of_append (h ▸ hn), h]
  | literal word =>
      simp only [accepted, Option.ite_none_right_eq_some, Option.some.injEq,
        List.isPrefixOf_iff_prefix] at h ⊢
      obtain ⟨hstart, rfl⟩ := h
      exact ⟨prefix_of_append hstart hn, rfl⟩
  | wholeWord word =>
      simp only [accepted, Option.ite_none_right_eq_some, Option.some.injEq, Bool.and_eq_true,
        List.isPrefixOf_iff_prefix, Bool.not_eq_true'] at h ⊢
      obtain ⟨⟨hstart, hstop⟩, rfl⟩ := h
      refine ⟨⟨prefix_of_append hstart hn, ?_⟩, rfl⟩
      rw [List.drop_append_of_le_length hn] at hstop
      cases hdrop : cs.drop word.length with
      | nil => rfl
      | cons c tail =>
          rw [hdrop] at hstop
          exact hstop
  | oneOf choices =>
      cases cs with
      | nil => exact absurd hpos (by simpa using hn)
      | cons c cs => exact h
  | pair choices second =>
      have htwo := two_le_of_isLong rfl hmatch
      match cs with
      | [] | [_] => exact absurd (Nat.le_trans htwo hn) (by simp)
      | c :: d :: cs => exact h
  | pairOrOne choices second =>
      cases cs with
      | nil => exact absurd hpos (by simpa using hn)
      | cons c cs =>
          simp only [List.cons_append, accepted, Option.ite_none_right_eq_some,
            Option.some.injEq] at h ⊢
          obtain ⟨hc, hlength⟩ := h
          refine ⟨hc, ?_⟩
          cases cs with
          | cons d cs => exact hlength
          | nil =>
              have hone : n = 1 := Nat.le_antisymm hn hpos
              rw [hone]
              rfl
  | lineComment =>
      have htwo := two_le_of_isLong rfl hmatch
      obtain ⟨tail, heq, rfl⟩ := eq_of_accepted_lineComment h
      match cs with
      | [] | [_] => exact absurd (Nat.le_trans htwo hn) (by simp)
      | c :: d :: cs =>
          simp only [List.cons_append, List.cons.injEq] at heq
          obtain ⟨rfl, rfl, rfl⟩ := heq
          rw [Nat.add_comm] at hn
          have hlength := Nat.le_of_succ_le_succ (Nat.le_of_succ_le_succ hn)
          rw [accepted, takeWhile_of_append hlength]
  | blockComment =>
      obtain ⟨body, after, heq, hnot, rfl⟩ := matchLength_blockComment_iff.1 hmatch
      have hstart : '/' :: '*' :: body ++ ['*', '/'] <+: cs ++ rest := ⟨after, by simp [heq]⟩
      have hlength : ('/' :: '*' :: body ++ ['*', '/']).length = body.length + 4 :=
        List.length_append
      obtain ⟨tail, rfl⟩ := prefix_of_append hstart (hlength ▸ hn)
      refine (matchLength_eq_some.1 (matchLength_blockComment_iff.2 ?_)).1
      exact ⟨body, tail, List.append_assoc _ _ _, hnot, rfl⟩
  | quoted quote =>
      obtain ⟨body, after, heq, hnot, rfl⟩ := matchLength_quoted_iff.1 hmatch
      have hstart : quote :: body ++ [quote] <+: cs ++ rest := ⟨after, by simp [heq]⟩
      have hlength : (quote :: body ++ [quote]).length = body.length + 2 := List.length_append
      obtain ⟨tail, rfl⟩ := prefix_of_append hstart (hlength ▸ hn)
      refine (matchLength_eq_some.1 (matchLength_quoted_iff.2 ?_)).1
      exact ⟨body, tail, List.append_assoc _ _ _, hnot, rfl⟩

theorem matchLength_le (h : p.matchLength cs = some n) : n ≤ cs.length := by
  have hmatch := h
  obtain ⟨h, -⟩ := matchLength_eq_some.1 h
  cases p with
  | run cls =>
      simp only [accepted, Option.some.injEq] at h
      exact h ▸ (List.takeWhile_prefix _).length_le
  | literal word =>
      simp only [accepted, Option.ite_none_right_eq_some, Option.some.injEq,
        List.isPrefixOf_iff_prefix] at h
      exact h.2 ▸ h.1.length_le
  | wholeWord word =>
      simp only [accepted, Option.ite_none_right_eq_some, Option.some.injEq, Bool.and_eq_true,
        List.isPrefixOf_iff_prefix] at h
      exact h.2 ▸ h.1.1.length_le
  | oneOf choices =>
      cases cs with
      | nil => cases h
      | cons c cs =>
          rw [eq_one_of_isSingle rfl hmatch]
          exact Nat.le_add_left 1 _
  | pair choices second =>
      match cs with
      | [] | [_] => cases h
      | c :: d :: cs =>
          simp only [accepted, Option.ite_none_right_eq_some, Option.some.injEq] at h
          rw [← h.2]
          exact Nat.le_add_left 2 _
  | pairOrOne choices second =>
      cases cs with
      | nil => cases h
      | cons c cs =>
          simp only [accepted, Option.ite_none_right_eq_some, Option.some.injEq] at h
          obtain ⟨-, hlength⟩ := h
          split at hlength
          · next hhead =>
            obtain ⟨tail, rfl⟩ := List.head?_eq_some_iff.1 hhead
            exact hlength ▸ Nat.le_add_left 2 _
          · exact hlength ▸ Nat.le_add_left 1 _
  | lineComment =>
      obtain ⟨tail, rfl, rfl⟩ := eq_of_accepted_lineComment h
      rw [Nat.add_comm]
      exact Nat.succ_le_succ (Nat.succ_le_succ (List.takeWhile_prefix _).length_le)
  | blockComment =>
      obtain ⟨body, after, rfl, -, rfl⟩ := matchLength_blockComment_iff.1 hmatch
      simp only [List.length_append, List.length_cons]
      omega
  | quoted quote =>
      obtain ⟨body, after, rfl, -, rfl⟩ := matchLength_quoted_iff.1 hmatch
      simp only [List.length_append, List.length_cons]
      omega

theorem matchLength_blockComment_append (h : blockComment.matchLength cs = some n)
    (rest : List Char) : blockComment.matchLength (cs ++ rest) = some n := by
  obtain ⟨body, after, rfl, hnot, rfl⟩ := matchLength_blockComment_iff.1 h
  exact matchLength_blockComment_iff.2 ⟨body, after ++ rest, List.append_assoc _ _ _, hnot, rfl⟩

theorem matchLength_quoted_append {quote : Char} (h : (Pattern.quoted quote).matchLength cs = some n)
    (rest : List Char) : (Pattern.quoted quote).matchLength (cs ++ rest) = some n := by
  obtain ⟨body, after, rfl, hnot, rfl⟩ := matchLength_quoted_iff.1 h
  exact matchLength_quoted_iff.2 ⟨body, after ++ rest, List.append_assoc _ _ _, hnot, rfl⟩

/-- A match before the cut is there without the cut too, though it may be longer. A whole word is
an exception: the cut may go through a longer word. -/
theorem matchLength_append (hp : ∀ word, p ≠ .wholeWord word) (h : p.matchLength cs = some n)
    (rest : List Char) : p.matchLength (cs ++ rest) ≠ none := by
  have hmatch := h
  obtain ⟨h, hpos⟩ := matchLength_eq_some.1 h
  cases cs with
  | nil =>
      rw [matchLength_nil] at hmatch
      cases hmatch
  | cons c cs =>
      cases p with
      | run cls =>
          have hc := contains_of_run hmatch
          simp [matchLength, hc]
      | literal word =>
          have hstart : word <+: c :: cs := take_literal hmatch ▸ List.take_prefix n _
          have hall : word <+: c :: (cs ++ rest) := hstart.trans (List.prefix_append _ rest)
          simp only [accepted, Option.ite_none_right_eq_some, Option.some.injEq] at h
          simp [matchLength, hall, h.2, Nat.ne_of_gt hpos]
      | wholeWord word => exact absurd rfl (hp word)
      | oneOf choices =>
          simp only [accepted, Option.ite_none_right_eq_some] at h
          simp [matchLength, h.1]
      | pair choices second =>
          cases cs with
          | nil => cases h
          | cons d cs =>
              simp only [accepted, Option.ite_none_right_eq_some] at h
              simp [matchLength, h.1]
      | pairOrOne choices second =>
          simp only [accepted, Option.ite_none_right_eq_some] at h
          exact fun hnone => not_mem_of_pairOrOne hnone h.1
      | lineComment =>
          obtain ⟨tail, heq, rfl⟩ := eq_of_accepted_lineComment h
          rw [heq]
          simp [matchLength]
      | blockComment =>
          rw [matchLength_blockComment_append hmatch rest]
          exact nofun
      | quoted quote =>
          rw [matchLength_quoted_append hmatch rest]
          exact nofun

end Pattern

/-! ## The rule that applies -/

namespace Rule

open Pattern

variable {rule : Rule} {c : Char} {cs rest : List Char} {n : Nat}

theorem length_of_first?_word (hc : isWord c = true) (hd : isDigit c = false)
    (h : first? (c :: cs) = some (rule, n)) : ((c :: cs).takeWhile isWord).length = n := by
  have hlongest := isLongest_of_first? h
  have hmatch := hlongest.length
  have hfamily := family_of_matchLength (table_isUniform rule hlongest.mem) hmatch
  rw [Text.family, Text.isBlank_of_isWord hc, hc, if_neg Bool.false_ne_true, if_pos rfl] at hfamily
  unfold family at hfamily
  split at hfamily
  · cases hfamily
  · next hp =>
    rw [hp] at hmatch
    rw [show isDigit c = true from contains_of_run hmatch] at hd
    cases hd
  · next hp =>
    rw [hp] at hmatch
    simpa [CharClass.contains] using (matchLength_eq_some.1 hmatch).1
  · next word hp =>
    obtain ⟨k, rfl⟩ := eq_keyword_of_mem hlongest.mem (.inr ⟨word, hp⟩)
    obtain ⟨hrun, hlength⟩ := takeWhile_of_wholeWord (List.all_eq_true.2 k.isWord_text) hmatch
    rw [hrun, hlength]
  · cases hfamily

/-- No keyword is cut out of a longer word. -/
theorem matchLength_keyword_append {k : Keyword} (h : first? (cs ++ rest) = some (rule, n))
    (hn : n ≤ cs.length) (hrun : cs.takeWhile isWord = k.text.toList) :
    (Pattern.wholeWord k.text.toList).matchLength (cs ++ rest) ≠ none := by
  obtain ⟨c, hhead, hdigit⟩ := (Option.any_eq_true _ _).1 k.head?_text
  obtain ⟨word, hword⟩ := List.head?_eq_some_iff.1 hhead
  have hc : isWord c = true := k.isWord_text c (by rw [hword]; exact List.mem_cons_self)
  obtain ⟨tail, rfl⟩ : [c] <+: cs := by
    refine List.IsPrefix.trans ?_ (List.takeWhile_prefix isWord)
    rw [hrun, hword]
    exact List.prefix_append [c] word
  have hlength := length_of_first?_word hc (by simpa using hdigit) h
  have hle : (([c] ++ tail ++ rest).takeWhile isWord).length ≤ ([c] ++ tail).length :=
    Nat.le_trans (Nat.le_of_eq hlength) hn
  have hsame := takeWhile_of_append hle
  have hsplit : k.text.toList ++ ([c] ++ tail ++ rest).dropWhile isWord = [c] ++ tail ++ rest := by
    rw [← hrun, hsame, List.takeWhile_append_dropWhile]
  have hne : k.text.toList ≠ [] := by
    rw [hword]
    exact List.cons_ne_nil _ _
  have hmatch := matchLength_wholeWord hne (Text.head?_dropWhile isWord ([c] ++ tail ++ rest))
  rw [hsplit] at hmatch
  rw [hmatch]
  exact nofun

/-- A rule that does not match is not made to match by the cut. -/
theorem matchLength_of_append_eq_none {rule' : Rule} (hmem : rule' ∈ table)
    (h : first? (cs ++ rest) = some (rule, n)) (hn : n ≤ cs.length)
    (hnone : rule'.pattern.matchLength (cs ++ rest) = none) :
    rule'.pattern.matchLength cs = none := by
  cases hmatch : rule'.pattern.matchLength cs with
  | none => rfl
  | some m =>
      by_cases hp : ∃ word, rule'.pattern = .wholeWord word
      · obtain ⟨k, rfl⟩ := eq_keyword_of_mem hmem (.inr hp)
        obtain ⟨hrun, -⟩ := takeWhile_of_wholeWord (List.all_eq_true.2 k.isWord_text) hmatch
        exact absurd hnone (matchLength_keyword_append h hn hrun)
      · have hp : ∀ word, rule'.pattern ≠ .wholeWord word := fun word heq => hp ⟨word, heq⟩
        exact absurd hnone (matchLength_append hp hmatch rest)

/-- **The rule that applies does not depend on what comes later.** -/
theorem first?_of_append (h : first? (cs ++ rest) = some (rule, n)) (hn : n ≤ cs.length) :
    first? cs = some (rule, n) := by
  obtain ⟨before, r, after, htable, hr, hnone⟩ := List.findSome?_eq_some_iff.1 h
  obtain ⟨m, hm, he⟩ := Option.map_eq_some_iff.1 hr
  cases he
  refine List.findSome?_eq_some_iff.2 ⟨before, rule, after, htable, ?_, ?_⟩
  · rw [matchLength_of_append hm hn]
    rfl
  · intro rule' hmem
    have hmem' : rule' ∈ table := by
      rw [htable]
      exact List.mem_append_left _ hmem
    have hnot := Option.map_eq_none_iff.1 (hnone rule' hmem)
    rw [matchLength_of_append_eq_none hmem' h hn hnot]
    rfl

/-- No comment is left open by a cut that goes through none. -/
theorem opensComment_of_append (hc : Scanner.opensComment (cs ++ rest) = false)
    (h : first? (cs ++ rest) = some (rule, n)) (hn : n ≤ cs.length) :
    Scanner.opensComment cs = false := by
  rw [Scanner.opensComment_eq_false_iff] at hc ⊢
  intro hstart
  obtain ⟨m, hm⟩ := hc (hstart.trans (List.prefix_append cs rest))
  have hmem : (⟨none, .blockComment⟩ : Rule) ∈ table := by simp [table, trivia]
  have hle : m ≤ n := (isLongest_of_first? h).le hmem (by rintro ⟨⟩) hm
  exact ⟨m, matchLength_of_append hm (Nat.le_trans hle hn)⟩

end Rule

/-! ## The scanner -/

namespace Scanner

variable {s s' : Scanner} {ts : List Token}

theorem advance_truncate {rule : Rule} {n : Nat} {cs cs' rest : List Char}
    (hr : Rule.first? s.rest = some (rule, n)) (hrest : s.rest = cs ++ rest)
    (hrest' : (s.advance n).rest = cs' ++ rest) (source : String) :
    n ≤ cs.length ∧ cs.take n = s.rest.take n ∧
      (⟨source, s.position, cs⟩ : Scanner).advance n =
        ⟨source, (s.advance n).position, cs'⟩ := by
  have hn := Pattern.matchLength_le (Rule.isLongest_of_first? hr).length
  have hcs : cs = s.rest.take n ++ cs' := by
    refine (List.append_left_inj rest).1 ?_
    rw [List.append_assoc, ← hrest', ← hrest]
    exact (List.take_append_drop n s.rest).symm
  have hlength : (s.rest.take n).length = n := List.length_take_of_le hn
  have htake : cs.take n = s.rest.take n := by
    rw [hcs]
    exact List.take_left' hlength
  have hdrop : cs.drop n = cs' := by
    rw [hcs]
    exact List.drop_left' hlength
  refine ⟨?_, htake, ?_⟩
  · rw [hcs, List.length_append, hlength]
    exact Nat.le_add_right n _
  · rw [advance, htake, hdrop]
    rfl

/-- **The scanner takes the same way through a truncated source.** -/
theorem Passes.truncate (h : Passes s ts s') {cs : List Char} (hrest : s.rest = cs ++ s'.rest)
    (source : String) : Passes ⟨source, s.position, cs⟩ ts ⟨source, s'.position, []⟩ := by
  induction h generalizing cs with
  | done =>
      obtain rfl : cs = [] := List.append_left_eq_self.1 hrest.symm
      exact .done
  | @skip s s' pattern n ts hc hr h ih =>
      obtain ⟨cs', hrest', -⟩ := h.read
      obtain ⟨hn, -, hadvance⟩ := advance_truncate hr hrest hrest' source
      rw [hrest] at hc hr
      refine .skip (Rule.opensComment_of_append hc hr hn) (Rule.first?_of_append hr hn) ?_
      rw [hadvance]
      exact ih hrest'
  | @token s s' kind pattern n ts hc hr h ih =>
      obtain ⟨cs', hrest', -⟩ := h.read
      obtain ⟨hn, htake, hadvance⟩ := advance_truncate hr hrest hrest' source
      rw [← htake]
      rw [hrest] at hc hr
      refine .token (Rule.opensComment_of_append hc hr hn) (Rule.first?_of_append hr hn) ?_
      rw [hadvance]
      exact ih hrest'

/-- The cursors before and behind a token stand at the two ends of its span. -/
theorem Passes.around {t : Token} (h : Passes s (t :: ts) s')
    (hsize : s.position + byteLength s.rest < 2 ^ 32) :
    ∃ s₁ s₂, Passes s [] s₁ ∧ Passes s₁ [t] s₂ ∧ Passes s₂ ts s' ∧
      s₁.position = t.span.start.toNat ∧ s₂.position = t.span.stop ∧
      s₁.position < s₂.position := by
  generalize hall : t :: ts = all at h
  induction h with
  | done => cases hall
  | @skip s s' pattern n all hc hr h ih =>
      obtain ⟨s₁, s₂, h₁, h₂, h₃, hspan⟩ := ih (bytes_advance s n ▸ hsize) hall
      exact ⟨s₁, s₂, .skip hc hr h₁, h₂, h₃, hspan⟩
  | @token s s' kind pattern n all hc hr h ih =>
      cases hall
      have hspan := Nat.lt_of_le_of_lt (position_advance_le s n) hsize
      obtain ⟨hstart, hlength⟩ := Token.span_ofChars (k := kind) hspan
      refine ⟨s, s.advance n, .done, .token hc hr .done, h, hstart.symm, ?_, ?_⟩
      · rw [Span.stop, hstart, hlength]
        rfl
      · exact Nat.lt_add_of_pos_right (Text.byteLength_pos (take_ne_nil hr))

theorem Passes.start_lt (h : Passes s ts s') (hsize : s.position + byteLength s.rest < 2 ^ 32) :
    ∀ t ∈ ts, t.span.start.toNat < s'.position := by
  intro t ht
  obtain ⟨before, after, rfl⟩ := List.append_of_mem ht
  obtain ⟨s₀, h₀, h⟩ := h.split
  obtain ⟨s₁, s₂, -, -, hlast, hstart, -, hlt⟩ := h.around (h₀.bytes ▸ hsize)
  obtain ⟨cs, -, hpos⟩ := hlast.read
  rw [← hstart, hpos]
  exact Nat.lt_of_lt_of_le hlt (Nat.le_add_right _ _)

end Scanner

namespace TokenStream

variable {source : String} {ts : List Token} {s' : Scanner}

theorem ofSource_truncated (h : Scanner.Passes (.ofSource source) ts s') :
    ∃ before after, source = before ++ after ∧ before.utf8ByteSize = s'.position ∧
      ofSource before = ⟨ts, .complete (UInt32.ofNat s'.position)⟩ := by
  obtain ⟨before, after, hsource, hbytes, hrest⟩ := h.exists_append
  refine ⟨before, after, hsource, hbytes, ?_⟩
  have hpasses := h.truncate hrest before
  have hhalts : Scanner.Halts ⟨before, s'.position, []⟩ := .inr rfl
  have hstream := hpasses.streamAfter_eq []
  rw [Scanner.streamAfter_of_halts hhalts, List.append_nil, List.reverse_reverse] at hstream
  exact hstream

theorem exists_passes {t : Token} {b : Nat} (hsize : source.utf8ByteSize < 2 ^ 32)
    (ht : t ∈ (ofSource source).tokens) (hb : b = t.span.start.toNat ∨ b = t.span.stop) :
    ∃ ts rest s', (ofSource source).tokens = ts ++ rest ∧
      Scanner.Passes (.ofSource source) ts s' ∧ s'.position = b := by
  rw [← Scanner.bytes_ofSource] at hsize
  obtain ⟨last, hpasses, -⟩ := Scanner.passes_stream (.ofSource source)
  change Scanner.Passes _ (ofSource source).tokens last at hpasses
  obtain ⟨before, after, htokens⟩ := List.append_of_mem ht
  rw [htokens] at hpasses ⊢
  obtain ⟨s₀, h₀, h⟩ := hpasses.split
  obtain ⟨s₁, s₂, h₁, h₂, -, hstart, hstop, -⟩ := h.around (h₀.bytes ▸ hsize)
  rcases hb with rfl | rfl
  · exact ⟨before, t :: after, s₁, rfl, List.append_nil before ▸ h₀.trans h₁, hstart⟩
  · refine ⟨before ++ [t], after, s₂, by simp, ?_, hstop⟩
    exact h₀.trans (h₁.trans h₂)

end TokenStream

end LetterLang

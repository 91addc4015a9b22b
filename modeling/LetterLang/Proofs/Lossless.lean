import LetterLang.Proofs.LexemeText
import LetterLang.Proofs.Passage

/-!
# No text is lost between tokens

A source is its tokens with blanks and comments between them.

- `Text.Trivia gap rest`: the text `gap`, with `rest` behind it, is made of blanks and comments.
- `Interleaved offset cs ts rest`: the characters `cs` are gaps and the texts of the tokens `ts` by
  turns, up to `rest`. Each token has the span at which its text stands, and each gap is as long as
  it can be, so that no token is read from text to be skipped.
- `tokens_interleaved`: every source is laid out like that, up to its end or up to the place that
  cannot be scanned.
-/

namespace LetterLang

open Rule (first?)
open Text (byteLength)

/-! ## Text to be skipped -/

namespace Text

/-- A run of blanks or a comment, with the characters `rest` behind it. -/
inductive TriviaPiece : List Char → List Char → Prop
  | blanks {bs rest} : bs ≠ [] → (∀ c ∈ bs, isBlank c = true) → TriviaPiece bs rest
  /-- A line comment runs to just before the next newline, or to the end. -/
  | lineComment {body rest} : '\n' ∉ body → (∀ c ∈ rest.head?, c = '\n') →
      TriviaPiece ('/' :: '/' :: body) rest
  /-- A block comment runs up to the first place behind its opening that closes it. -/
  | blockComment {body rest} : ¬ ['*', '/'] <:+: body →
      TriviaPiece ('/' :: '*' :: body ++ ['*', '/']) rest

inductive Trivia : List Char → List Char → Prop
  | nil {rest} : Trivia [] rest
  | cons {piece gap rest} : TriviaPiece piece (gap ++ rest) → Trivia gap rest →
      Trivia (piece ++ gap) rest

def NoTrivia (cs : List Char) : Prop :=
  cs.head?.any isBlank = false ∧ NoComment cs

end Text

/-! ## The rules of blanks and comments -/

namespace Pattern

variable {cs : List Char} {n : Nat}

theorem untilCommentEnd_cons {c : Char} : untilCommentEnd (c :: cs) =
    if c = '*' ∧ cs.head? = some '/' then some 0 else (untilCommentEnd cs).map (· + 1) := by
  rw [untilCommentEnd.eq_def]
  split
  · next heq =>
    cases heq
    rfl
  · next hno heq =>
    cases heq
    rw [if_neg]
    rintro ⟨rfl, hhead⟩
    obtain ⟨tail, rfl⟩ := List.head?_eq_some_iff.1 hhead
    exact hno tail rfl rfl
  · next heq => cases heq

/-- What comes before the first `*/` holds none. -/
theorem eq_of_untilCommentEnd (h : untilCommentEnd cs = some n) :
    ∃ body rest, cs = body ++ '*' :: '/' :: rest ∧ ¬ ['*', '/'] <:+: body ∧ body.length = n := by
  fun_induction untilCommentEnd cs generalizing n with
  | case1 tail =>
      cases h
      exact ⟨[], tail, rfl, by simp, rfl⟩
  | case2 c cs hfirst ih =>
      obtain ⟨m, hm, rfl⟩ := Option.map_eq_some_iff.1 h
      obtain ⟨body, rest, rfl, hnot, rfl⟩ := ih hm
      refine ⟨c :: body, rest, rfl, ?_, rfl⟩
      rw [List.infix_cons_iff]
      rintro (hstart | hinner)
      · -- A closing at the very start is the one that the case excludes.
        obtain ⟨rfl, tail, rfl⟩ := List.cons_prefix_cons.1 hstart
        exact hfirst _ rfl rfl
      · exact hnot hinner
  | case3 => cases h

theorem untilCommentEnd_append {body : List Char} (h : ¬ ['*', '/'] <:+: body)
    (rest : List Char) : untilCommentEnd (body ++ '*' :: '/' :: rest) = some body.length := by
  induction body with
  | nil => rfl
  | cons c body ih =>
      rw [List.infix_cons_iff, not_or] at h
      rw [List.cons_append, untilCommentEnd_cons, if_neg, ih h.2]
      · rfl
      · rintro ⟨rfl, hhead⟩
        cases body with
        | nil => cases hhead
        | cons d body =>
            obtain rfl : d = '/' := Option.some.inj hhead
            exact h.1 (List.prefix_append ['*', '/'] body)

/-- A block comment goes up to the first `*/` behind its opening. -/
theorem matchLength_blockComment_iff : blockComment.matchLength cs = some n ↔
    ∃ body rest, cs = '/' :: '*' :: body ++ '*' :: '/' :: rest ∧ ¬ ['*', '/'] <:+: body ∧
      body.length + 4 = n := by
  rw [matchLength_eq_some]
  constructor
  · rintro ⟨h, -⟩
    rw [accepted.eq_def] at h
    split at h <;> try contradiction
    obtain ⟨m, hm, rfl⟩ := Option.map_eq_some_iff.1 h
    obtain ⟨body, rest, rfl, hnot, rfl⟩ := eq_of_untilCommentEnd hm
    exact ⟨body, rest, rfl, hnot, rfl⟩
  · rintro ⟨body, rest, rfl, hnot, rfl⟩
    refine ⟨?_, Nat.succ_pos _⟩
    rw [List.cons_append, List.cons_append, accepted, untilCommentEnd_append hnot]
    rfl

theorem eq_of_accepted_lineComment (h : lineComment.accepted cs = some n) :
    ∃ tail, cs = '/' :: '/' :: tail ∧ 2 + (tail.takeWhile (· ≠ '\n')).length = n := by
  rw [accepted.eq_def] at h
  split at h <;> try contradiction
  exact ⟨_, rfl, Option.some.inj h⟩

theorem take_lineComment (h : lineComment.matchLength cs = some n) :
    ∃ body, cs.take n = '/' :: '/' :: body ∧ '\n' ∉ body ∧ ∀ c ∈ (cs.drop n).head?, c = '\n' := by
  obtain ⟨tail, rfl, rfl⟩ := eq_of_accepted_lineComment (matchLength_eq_some.1 h).1
  have hsplit : tail.takeWhile (· ≠ '\n') ++ tail.dropWhile (· ≠ '\n') = tail :=
    List.takeWhile_append_dropWhile
  have hdrop : tail.drop (tail.takeWhile (· ≠ '\n')).length = tail.dropWhile (· ≠ '\n') := by
    conv => lhs; arg 2; rw [← hsplit]
    exact List.drop_left
  rw [Nat.add_comm]
  refine ⟨tail.takeWhile (· ≠ '\n'), ?_, ?_, ?_⟩
  · have htake := List.prefix_iff_eq_take.1 (List.takeWhile_prefix (· ≠ '\n') (l := tail))
    rw [List.take_succ_cons, List.take_succ_cons, ← htake]
  · intro hmem
    simpa using List.all_eq_true.1 List.all_takeWhile _ hmem
  · intro c hc
    have hnot := List.head?_dropWhile_not (· ≠ '\n') tail
    rw [← hdrop] at hnot
    rw [show (tail.drop _).head? = some c from hc] at hnot
    simpa using hnot

theorem take_blockComment (h : blockComment.matchLength cs = some n) :
    ∃ body, cs.take n = '/' :: '*' :: body ++ ['*', '/'] ∧ ¬ ['*', '/'] <:+: body := by
  obtain ⟨body, rest, rfl, hnot, rfl⟩ := matchLength_blockComment_iff.1 h
  have hlength : body.length + 4 = ('/' :: '*' :: body).length + 2 := rfl
  rw [hlength, List.take_length_add_append]
  exact ⟨body, rfl, hnot⟩

end Pattern

namespace Rule

open Text Pattern

variable {kind : TokenKind} {pattern : Pattern} {cs : List Char} {n : Nat}

/-- The rules without a kind take a run of blanks or a comment. -/
theorem triviaPiece_of_first? (h : first? cs = some (⟨none, pattern⟩, n)) :
    TriviaPiece (cs.take n) (cs.drop n) := by
  have hfirst : firstOf table cs = some (⟨none, pattern⟩, n) := h
  obtain ⟨hmem, hm⟩ := firstOf_eq_some hfirst
  have hpattern : pattern = .run .blank ∨ pattern = .lineComment ∨ pattern = .blockComment := by
    simpa [table, trivia, words, operators, strings, delimiter, keyword] using hmem
  rcases hpattern with rfl | rfl | rfl
  · obtain ⟨htake, -, hne⟩ := take_run hm
    rw [htake]
    exact .blanks hne (List.all_eq_true.1 List.all_takeWhile)
  · obtain ⟨body, htake, hnot, hnext⟩ := take_lineComment hm
    rw [htake]
    exact .lineComment hnot hnext
  · obtain ⟨body, htake, hnot⟩ := take_blockComment hm
    rw [htake]
    exact .blockComment hnot

/-- No blanks and no comment start where a token does. -/
theorem noTrivia_of_first? (hc : Scanner.opensComment cs = false)
    (h : first? cs = some (⟨some kind, pattern⟩, n)) : NoTrivia cs := by
  have hnone : firstOf trivia cs = none := by
    rw [first?_eq_or, Option.or_eq_some_iff] at h
    rcases h with h | ⟨hnone, -⟩
    · obtain ⟨hmem, -⟩ := firstOf_eq_some h
      simp [trivia] at hmem
    · exact hnone
  rw [firstOf_eq_none] at hnone
  constructor
  · have hblank : (Pattern.run .blank).matchLength cs = none := hnone ⟨none, .run .blank⟩ (by simp [trivia])
    cases cs with
    | nil => rfl
    | cons c cs =>
        cases hb : isBlank c with
        | false => exact hb
        | true => simp [matchLength, CharClass.contains, hb] at hblank
  · rintro c tail rfl
    constructor
    · rintro rfl
      have hline := hnone ⟨none, .lineComment⟩ (by simp [trivia])
      simp [matchLength] at hline
    · rintro rfl
      have hblock := hnone ⟨none, .blockComment⟩ (by simp [trivia])
      cases hend : untilCommentEnd tail with
      | none => simp [Scanner.opensComment, hend] at hc
      | some m => simp [matchLength, hend] at hblock

end Rule

/-! ## Gaps and tokens -/

/-- From the byte offset `offset` on, the characters are gaps and the texts of tokens by turns, then
a last gap, and then `rest`. Each token has the span at which its text stands, and neither a blank
nor a comment starts there. -/
inductive Interleaved : Nat → List Char → List Token → List Char → Prop
  | last {offset gap rest} : Text.Trivia gap rest → Interleaved offset (gap ++ rest) [] rest
  | token {offset gap cs rest} {t : Token} {ts : List Token} :
      Text.Trivia gap (t.text.toList ++ cs) → Text.NoTrivia (t.text.toList ++ cs) →
      t.text.toList ≠ [] → t.span.start.toNat = offset + byteLength gap →
      t.span.length.toNat = byteLength t.text.toList →
      Interleaved t.span.stop cs ts rest →
      Interleaved offset (gap ++ (t.text.toList ++ cs)) (t :: ts) rest

namespace Interleaved

variable {offset : Nat} {cs rest : List Char} {ts : List Token}

theorem eq_gap (h : Interleaved offset cs [] rest) :
    ∃ gap, cs = gap ++ rest ∧ Text.Trivia gap rest := by
  cases h with
  | last hgap => exact ⟨_, rfl, hgap⟩

theorem skip {piece : List Char} (hp : Text.TriviaPiece piece cs)
    (h : Interleaved (offset + byteLength piece) cs ts rest) :
    Interleaved offset (piece ++ cs) ts rest := by
  cases h with
  | last hgap =>
      rw [← List.append_assoc]
      exact .last (.cons hp hgap)
  | token hgap hno hne hstart hlength h =>
      rw [← List.append_assoc]
      refine .token (.cons hp hgap) hno hne ?_ hlength h
      rw [hstart, Text.byteLength_append, Nat.add_assoc]

theorem ofChars (kind : TokenKind) {text : List Char} (hne : text ≠ [])
    (hno : Text.NoTrivia (text ++ cs)) (hspan : offset + byteLength text < 2 ^ 32)
    (h : Interleaved (offset + byteLength text) cs ts rest) :
    Interleaved offset (text ++ cs) (.ofChars kind text offset :: ts) rest := by
  obtain ⟨hstart, hlength⟩ := Token.span_ofChars (k := kind) hspan
  have htext : (Token.ofChars kind text offset).text.toList = text := String.toList_ofList
  have hstop : (Token.ofChars kind text offset).span.stop = offset + byteLength text := by
    rw [Span.stop, hstart, hlength]
  have hall : Interleaved offset
      ([] ++ ((Token.ofChars kind text offset).text.toList ++ cs))
      (.ofChars kind text offset :: ts) rest := by
    refine .token .nil ?_ ?_ hstart ?_ ?_
    · rwa [htext]
    · rwa [htext]
    · rwa [htext]
    · rwa [hstop]
  rwa [htext] at hall

theorem offset_le (h : Interleaved offset cs ts rest) : ∀ t ∈ ts, offset ≤ t.span.start.toNat := by
  induction h with
  | last => simp
  | @token offset gap _ _ t ts _ _ _ hstart _ _ ih =>
      intro u hu
      rcases List.mem_cons.1 hu with rfl | hu
      · omega
      · have hle := ih u hu
        rw [Span.stop] at hle
        omega

/-- Spans do not overlap, and they come in the order of the tokens. -/
theorem pairwise (h : Interleaved offset cs ts rest) :
    ts.Pairwise fun t u => t.span.stop ≤ u.span.start.toNat := by
  induction h with
  | last => exact .nil
  | token _ _ _ _ _ h ih => exact .cons h.offset_le ih

theorem span_nonempty (h : Interleaved offset cs ts rest) :
    ∀ t ∈ ts, t.span.start.toNat < t.span.stop := by
  induction h with
  | last => simp
  | @token _ _ _ _ t _ _ _ hne _ hlength _ ih =>
      intro u hu
      rcases List.mem_cons.1 hu with rfl | hu
      · rw [Span.stop, hlength]
        exact Nat.lt_add_of_pos_right (Text.byteLength_pos hne)
      · exact ih u hu

/-- The bytes at the span of a token are its text. -/
theorem bytes_at_span (h : Interleaved offset cs ts rest) (before : List Char)
    (hbefore : byteLength before = offset) :
    ∀ t ∈ ts, (before ++ cs).utf8Encode.extract t.span.start.toNat t.span.stop = t.text.toUTF8 := by
  induction h generalizing before with
  | last => simp
  | @token offset gap cs rest t ts _ _ _ hstart hlength _ ih =>
      have hend : byteLength (before ++ gap ++ t.text.toList) = t.span.stop := by
        rw [Text.byteLength_append, Text.byteLength_append, hbefore, Span.stop, hstart, hlength]
      intro u hu
      rcases List.mem_cons.1 hu with rfl | hu
      · have hbytes := Text.extract_utf8Encode (before ++ gap) u.text.toList cs
        rw [Text.byteLength_append, hbefore, ← hstart, ← hlength, List.append_assoc] at hbytes
        rw [Span.stop, hbytes, ← String.toByteArray_ofList, String.ofList_toList]
        rfl
      · have hbytes := ih _ hend u hu
        rwa [List.append_assoc, List.append_assoc] at hbytes

end Interleaved

namespace Scanner

variable {s s' : Scanner} {ts : List Token}

/-- What the scanner passes is gaps and tokens. -/
theorem Passes.interleaved (h : Passes s ts s') (hsize : s.position + byteLength s.rest < 2 ^ 32) :
    Interleaved s.position s.rest ts s'.rest := by
  induction h with
  | done => exact .last .nil
  | @skip s s' pattern n ts _ hr _ ih =>
      have hsplit : s.rest.take n ++ s.rest.drop n = s.rest := List.take_append_drop n s.rest
      have hrest := ih (bytes_advance s n ▸ hsize)
      rw [← hsplit]
      exact .skip (Rule.triviaPiece_of_first? hr) hrest
  | @token s s' kind pattern n ts hc hr _ ih =>
      have hsplit : s.rest.take n ++ s.rest.drop n = s.rest := List.take_append_drop n s.rest
      have hrest := ih (bytes_advance s n ▸ hsize)
      have hspan := Nat.lt_of_le_of_lt (position_advance_le s n) hsize
      have hno := Rule.noTrivia_of_first? hc hr
      rw [← hsplit] at hno
      have hall := Interleaved.ofChars kind (take_ne_nil hr) hno hspan hrest
      rwa [hsplit] at hall

end Scanner

/-- **No text is lost.** A source of less than `2 ^ 32` bytes is gaps and the texts of its tokens by
turns, up to the offset at which the tokens end: the end of the source, or a place that cannot be
scanned. The spans are not empty, they do not overlap, and they come in the order of the tokens;
the bytes of the source at a span are the text of its token. -/
theorem tokens_interleaved {source : String} (hsize : source.utf8ByteSize < 2 ^ 32) :
    ∃ rest, Interleaved 0 source.toList (TokenStream.ofSource source).tokens rest ∧
      (TokenStream.ofSource source).ending.offset.toNat + byteLength rest = source.utf8ByteSize ∧
      ((∃ offset, (TokenStream.ofSource source).ending = .complete offset) ↔ rest = []) ∧
      ((TokenStream.ofSource source).tokens.Pairwise fun t u => t.span.stop ≤ u.span.start.toNat) ∧
      ∀ t ∈ (TokenStream.ofSource source).tokens, t.span.start.toNat < t.span.stop ∧
        source.toUTF8.extract t.span.start.toNat t.span.stop = t.text.toUTF8 := by
  obtain ⟨s', hpasses, -, hending⟩ := Scanner.passes_stream (.ofSource source)
  change Scanner.Passes _ (TokenStream.ofSource source).tokens s' at hpasses
  change (TokenStream.ofSource source).ending = s'.ending at hending
  have hbytes := Text.utf8ByteSize_eq source
  have hall := hpasses.interleaved (Scanner.bytes_ofSource source ▸ hsize)
  obtain ⟨read, hread, hpos⟩ := hpasses.read
  change source.toList = read ++ s'.rest at hread
  change s'.position = 0 + byteLength read at hpos
  rw [hread, Text.byteLength_append] at hbytes
  have hlt : s'.position < UInt32.size := Nat.lt_of_le_of_lt (by omega) hsize
  refine ⟨s'.rest, hall, ?_, ?_, hall.pairwise, ?_⟩
  · rw [hending, Scanner.offset_ending, UInt32.toNat_ofNat_of_lt' hlt]
    omega
  · rw [hending]
    exact Scanner.ending_complete_iff
  · intro t ht
    have hspan := hall.bytes_at_span [] rfl t ht
    refine ⟨hall.span_nonempty t ht, ?_⟩
    rwa [List.nil_append, ← String.toByteArray_ofList, Scanner.ofSource, String.ofList_toList]
      at hspan

/-- A name, a comment, a string that is not ASCII, and a character that is no token. -/
theorem tokens_interleaved_fault :
    ∃ rest, Interleaved 0 "a/*b*/'é'#".toList
      [⟨.identifier, "a", ⟨0, 1⟩⟩, ⟨.string, "'é'", ⟨6, 4⟩⟩] rest ∧ byteLength rest = 1 := by
  have hstream : TokenStream.ofSource "a/*b*/'é'#" =
      ⟨[⟨.identifier, "a", ⟨0, 1⟩⟩, ⟨.string, "'é'", ⟨6, 4⟩⟩],
        .fault (.unexpectedCharacter '#' 10)⟩ := by
    decide +kernel
  obtain ⟨rest, hall, hoffset, -⟩ :=
    tokens_interleaved (by decide : "a/*b*/'é'#".utf8ByteSize < 2 ^ 32)
  rw [hstream] at hall hoffset
  have hoffset : 10 + byteLength rest = 11 := hoffset
  exact ⟨rest, hall, by omega⟩

end LetterLang

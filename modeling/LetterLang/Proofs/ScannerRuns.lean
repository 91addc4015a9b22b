import LetterLang.Proofs.Lossless

/-!
# Runs of the scanner

A scanner is called again and again. Here is what its cursor does over all calls, however many there
are and whatever they answer.

- `Scanner.after`, `Scanner.answer`: the scanner after some calls, and what the next call answers.
- `Scanner.next_cases`: all that one call can do. It skips text and then reads a token, or it skips
  text and halts. Everything else follows from this.
- `Scanner.passes_after`: a run passes tokens, so its cursor stays between characters of the source
  and never moves back.
- `Scanner.after_of_halts`: where the scanner halts, every later call answers the same.
- `Scanner.stream_answers`: the tokens of a stream are the answers up to the one that ends it.
- `Scanner.calls_on_source`: the calls on a scanner, put together.
-/

namespace LetterLang

open Rule (first?)
open Text (byteLength)

/-- The byte offset lies between two characters of the text, or at one of its ends. -/
def Text.IsBoundary (source : String) (offset : Nat) : Prop :=
  ∃ before after, source = before ++ after ∧ before.utf8ByteSize = offset

/-- Between the two byte offsets there are only blanks and comments. -/
def Text.Skips (source : String) (start stop : Nat) : Prop :=
  ∃ before gap after, source.toList = before ++ (gap ++ after) ∧ byteLength before = start ∧
    start + byteLength gap = stop ∧ Trivia gap after

namespace Scanner

def after (s : Scanner) : Nat → Scanner
  | 0 => s
  | n + 1 => (s.after n).next.2

/-- What the scanner answers when it has been called `n` times before. -/
def answer (s : Scanner) (n : Nat) : Except ScanError Token :=
  (s.after n).next.1

variable {s s' : Scanner} {t : Token} {e : ScanError} {n m : Nat}

theorem next_after {r : Except ScanError Token} (h : s.answer n = r) :
    (s.after n).next = (r, s.after (n + 1)) := by
  rw [← h]
  rfl

theorem after_add (s : Scanner) (n m : Nat) : s.after (n + m) = (s.after n).after m := by
  induction m with
  | zero => rfl
  | succ m ih => rw [← Nat.add_assoc, after, ih, after]

theorem answer_add (s : Scanner) (n m : Nat) : s.answer (n + m) = (s.after n).answer m := by
  rw [answer, after_add, answer]

/-! ## One call -/

/-- **All that a call can do.** It skips text, and then it reads the token at the cursor, or it
halts there. -/
theorem next_cases (s : Scanner) :
    (∃ s₁ kind pattern n, Passes s [] s₁ ∧ opensComment s₁.rest = false ∧
      first? s₁.rest = some (⟨some kind, pattern⟩, n) ∧
      s.next = (.ok (.ofChars kind (s₁.rest.take n) s₁.position), s₁.advance n)) ∨
    ∃ s', Passes s [] s' ∧ s'.Halts ∧ s.next = (s'.ending.answer, s') := by
  obtain ⟨ts, s', hpasses, hhalts⟩ := exists_halts s
  induction hpasses with
  | @done s => exact .inr ⟨s, .done, hhalts, next_of_halts hhalts⟩
  | skip hc hr _ ih =>
      rw [next_of_skip hc hr]
      rcases ih hhalts with ⟨s₁, kind, pattern, n, h₁, hread⟩ | ⟨s₁, h₁, hhalt⟩
      · exact .inl ⟨s₁, kind, pattern, n, .skip hc hr h₁, hread⟩
      · exact .inr ⟨s₁, .skip hc hr h₁, hhalt⟩
  | @token s _ kind pattern n _ hc hr _ _ =>
      exact .inl ⟨s, kind, pattern, n, .done, hc, hr, next_of_token hc hr⟩

theorem passes_next (s : Scanner) : ∃ ts, Passes s ts s.next.2 := by
  rcases next_cases s with ⟨s₁, kind, pattern, n, hpasses, hc, hr, hnext⟩ | ⟨s', hpasses, -, hnext⟩
  · rw [hnext]
    exact ⟨_, hpasses.trans (.token hc hr .done)⟩
  · rw [hnext]
    exact ⟨[], hpasses⟩

theorem Passes.position_le {ts : List Token} (h : Passes s ts s') : s.position ≤ s'.position := by
  obtain ⟨cs, -, hposition⟩ := h.read
  rw [hposition]
  exact Nat.le_add_right _ _

theorem position_next (hsize : s.position + byteLength s.rest < 2 ^ 32)
    (h : s.next = (.ok t, s')) (ht : t.isEnd = false) :
    s.position < s'.position ∧ s'.position = t.span.stop := by
  rcases next_cases s with ⟨s₁, kind, pattern, n, hpasses, hc, hr, hnext⟩ | ⟨s₁, -, -, hnext⟩
  · cases hnext.symm.trans h
    rw [← hpasses.bytes] at hsize
    have hspan := Nat.lt_of_le_of_lt (position_advance_le s₁ n) hsize
    obtain ⟨hstart, hlength⟩ := Token.span_ofChars (k := kind) hspan
    have hpos := Text.byteLength_pos (take_ne_nil hr)
    have hle := hpasses.position_le
    constructor
    · show s.position < s₁.position + byteLength (s₁.rest.take n)
      omega
    · rw [Span.stop, hstart, hlength]
      rfl
  · have hanswer : s₁.ending.answer = .ok t := congrArg Prod.fst (hnext.symm.trans h)
    obtain ⟨offset, -, rfl⟩ := Ending.eq_of_answer hanswer
    cases ht

/-- A call that reads no token halts behind the text that it skips. -/
theorem halts_of_next {r : Except ScanError Token} (h : s.next = (r, s'))
    (hr : ∀ t, r = .ok t → t.isEnd = true) :
    Passes s [] s' ∧ s'.Halts ∧ r = s'.ending.answer := by
  rcases next_cases s with ⟨s₁, kind, pattern, n, -, -, hfirst, hnext⟩ | ⟨s₁, hskip, hhalts, hnext⟩
  · cases hnext.symm.trans h
    cases (hr _ rfl).symm.trans (isEnd_ofChars hfirst)
  · cases hnext.symm.trans h
    exact ⟨hskip, hhalts, rfl⟩

theorem Passes.skips {source : String} {ts : List Token} (hbefore : Passes (.ofSource source) ts s)
    (hsize : source.utf8ByteSize < 2 ^ 32) (h : Passes s [] s') :
    Text.Skips source s.position s'.position := by
  obtain ⟨before, hread, hposition⟩ := hbefore.read
  have hbytes := h.bytes
  rw [← bytes_ofSource, ← hbefore.bytes] at hsize
  obtain ⟨gap, hgap, htrivia⟩ := (h.interleaved hsize).eq_gap
  refine ⟨before, gap, s'.rest, ?_, ?_, ?_, htrivia⟩
  · rw [← hgap]
    exact hread
  · rw [hposition]
    exact (Nat.zero_add _).symm
  · rw [hgap, Text.byteLength_append] at hbytes
    omega

/-! ## Many calls -/

/-- **A run passes tokens.** -/
theorem passes_after (s : Scanner) (n : Nat) : ∃ ts, Passes s ts (s.after n) := by
  induction n with
  | zero => exact ⟨[], .done⟩
  | succ n ih =>
      obtain ⟨ts, hpasses⟩ := ih
      obtain ⟨ts', hnext⟩ := passes_next (s.after n)
      exact ⟨ts ++ ts', hpasses.trans hnext⟩

/-- The cursor never moves back. -/
theorem position_after_le (s : Scanner) (h : n ≤ m) :
    (s.after n).position ≤ (s.after m).position := by
  obtain ⟨k, rfl⟩ := Nat.exists_eq_add_of_le h
  obtain ⟨ts, hpasses⟩ := passes_after (s.after n) k
  rw [after_add]
  exact hpasses.position_le

/-- **Where the scanner halts, it stays.** -/
theorem after_of_halts (h : s.Halts) (n : Nat) : s.after n = s := by
  induction n with
  | zero => rfl
  | succ n ih => rw [after, ih, next_of_halts h]

theorem answer_of_halts (h : s.Halts) (n : Nat) : s.answer n = s.ending.answer := by
  rw [answer, after_of_halts h, next_of_halts h]

/-- Every call after one that reads no token answers the same, and moves nothing. -/
theorem answer_repeats (hr : ∀ t, s.answer n = .ok t → t.isEnd = true) (h : n < m) :
    s.answer m = s.answer n ∧ s.after m = s.after (n + 1) := by
  obtain ⟨-, hhalts, hanswer⟩ := halts_of_next (next_after rfl) hr
  obtain ⟨k, rfl⟩ := Nat.exists_eq_add_of_le (Nat.succ_le_of_lt h)
  constructor
  · rw [answer_add, answer_of_halts hhalts, hanswer]
  · rw [after_add, after_of_halts hhalts]

/-- The tokens of a stream are answers, and how it ends is the answer after them. There are no more
of them than characters. -/
theorem stream_answers (read : List Token) (s : Scanner) :
    ∃ ts, (s.streamAfter read).tokens = read.reverse ++ ts ∧ ts.length ≤ s.rest.length ∧
      (∀ t ∈ ts, t.isEnd = false) ∧ (List.range ts.length).map s.answer = ts.map .ok ∧
      s.answer ts.length = (s.streamAfter read).ending.answer := by
  fun_induction streamAfter read s with
  | case1 read s e s' h =>
      refine ⟨[], by simp, Nat.zero_le _, by simp, rfl, ?_⟩
      show s.next.1 = .error e
      rw [h]
  | case2 read s t s' h ht =>
      obtain ⟨-, -, hanswer⟩ := halts_of_next h (by rintro _ ⟨⟩; exact ht)
      obtain ⟨offset, -, rfl⟩ := Ending.eq_of_answer hanswer.symm
      refine ⟨[], by simp, Nat.zero_le _, by simp, rfl, ?_⟩
      show s.next.1 = .ok (.endOfInput offset)
      rw [h]
  | case3 read s t s' h ht ih =>
      obtain ⟨ts, htokens, hlength, hends, hanswers, hlast⟩ := ih
      have ht : t.isEnd = false := by simpa using ht
      have hafter : s.after 1 = s' := congrArg Prod.snd h
      have hshift : ∀ i, s.answer (i + 1) = s'.answer i := by
        intro i
        rw [Nat.add_comm, answer_add, hafter]
      have hle : (t :: ts).length ≤ s.rest.length :=
        Nat.succ_le_of_lt (Nat.lt_of_le_of_lt hlength (length_rest_next h ht))
      refine ⟨t :: ts, by simp [htokens], hle, ?_, ?_, ?_⟩
      · intro u hu
        rcases List.mem_cons.1 hu with rfl | hu
        · exact ht
        · exact hends u hu
      · have hfirst : s.answer 0 = .ok t := congrArg Prod.fst h
        rw [List.length_cons, List.range_succ_eq_map, List.map_cons, List.map_map, hfirst,
          List.map_cons, ← hanswers]
        exact congrArg _ (List.map_congr_left fun i _ => hshift i)
      · rw [List.length_cons, hshift, hlast]

/-! ## The calls on a source -/

/-- What the calls on a scanner do with its cursor in the source. -/
structure Orderly (source : String) (s : Scanner) : Prop where
  boundary : ∀ n, Text.IsBoundary source (s.after n).position
  forward : ∀ n m, n ≤ m → (s.after n).position ≤ (s.after m).position
  /-- A token is passed over, up to its end. -/
  token : ∀ n t, s.answer n = .ok t → t.isEnd = false →
    (s.after n).position < (s.after (n + 1)).position ∧ (s.after (n + 1)).position = t.span.stop
  /-- The end of the input is the end of the source, now and for ever. -/
  ending : ∀ n t, s.answer n = .ok t → t.isEnd = true →
    (s.after (n + 1)).position = source.utf8ByteSize ∧
      t.span.start.toNat = source.utf8ByteSize ∧ t.span.length = 0 ∧
      ∀ m, n < m → s.answer m = .ok t
  /-- In front of a fault only blanks and comments are skipped; then nothing moves any more. -/
  fault : ∀ n e, s.answer n = .error e →
    (s.after (n + 1)).position = e.span.start.toNat ∧
      Text.Skips source (s.after n).position (s.after (n + 1)).position ∧
      ∀ m, n < m → s.answer m = .error e ∧ (s.after m).position = (s.after (n + 1)).position

variable {source : String}

theorem bytes_after (source : String) (n : Nat) :
    ((ofSource source).after n).position + byteLength ((ofSource source).after n).rest =
      source.utf8ByteSize := by
  obtain ⟨ts, hpasses⟩ := passes_after (ofSource source) n
  rw [hpasses.bytes, bytes_ofSource]

theorem toNat_position_after (hsize : source.utf8ByteSize < 2 ^ 32) (n : Nat) :
    (UInt32.ofNat ((ofSource source).after n).position).toNat =
      ((ofSource source).after n).position := by
  apply UInt32.toNat_ofNat_of_lt'
  have hbytes := bytes_after source n
  exact Nat.lt_of_le_of_lt (by omega) hsize

theorem isBoundary_after (source : String) (n : Nat) :
    Text.IsBoundary source ((ofSource source).after n).position := by
  obtain ⟨ts, hpasses⟩ := passes_after (ofSource source) n
  obtain ⟨before, after, hsource, hbytes, -⟩ := hpasses.exists_append
  exact ⟨before, after, hsource, hbytes⟩

theorem ending_after (hsize : source.utf8ByteSize < 2 ^ 32)
    (h : (ofSource source).answer n = .ok t) (ht : t.isEnd = true) :
    ((ofSource source).after (n + 1)).position = source.utf8ByteSize ∧
      t.span.start.toNat = source.utf8ByteSize ∧ t.span.length = 0 := by
  obtain ⟨-, -, hanswer⟩ := halts_of_next (next_after h) (by rintro _ ⟨⟩; exact ht)
  obtain ⟨offset, hending, rfl⟩ := Ending.eq_of_answer hanswer.symm
  have hrest : ((ofSource source).after (n + 1)).rest = [] :=
    ending_complete_iff.1 ⟨offset, hending⟩
  have hoffset := offset_ending ((ofSource source).after (n + 1))
  rw [hending] at hoffset
  have hposition := bytes_after source (n + 1)
  rw [hrest] at hposition
  refine ⟨hposition, ?_, rfl⟩
  show offset.toNat = source.utf8ByteSize
  rw [show offset = _ from hoffset, toNat_position_after hsize]
  exact hposition

theorem fault_after (hsize : source.utf8ByteSize < 2 ^ 32)
    (h : (ofSource source).answer n = .error e) :
    ((ofSource source).after (n + 1)).position = e.span.start.toNat ∧
      Text.Skips source ((ofSource source).after n).position
        ((ofSource source).after (n + 1)).position := by
  obtain ⟨hskipped, -, hanswer⟩ := halts_of_next (next_after h) (by rintro _ ⟨⟩)
  obtain ⟨ts, hpasses⟩ := passes_after (ofSource source) n
  have hoffset := offset_ending ((ofSource source).after (n + 1))
  rw [Ending.answer_eq_error hanswer.symm] at hoffset
  constructor
  · rw [show e.span.start = _ from hoffset, toNat_position_after hsize]
  · exact hpasses.skips hsize hskipped

theorem orderly_ofSource (hsize : source.utf8ByteSize < 2 ^ 32) :
    Orderly source (ofSource source) where
  boundary := isBoundary_after source
  forward n m := position_after_le (ofSource source)
  token n t h ht := by
    apply position_next _ (next_after h) ht
    rw [bytes_after]
    exact hsize
  ending n t h ht := by
    obtain ⟨hposition, hstart, hlength⟩ := ending_after hsize h ht
    refine ⟨hposition, hstart, hlength, fun m hm => ?_⟩
    rw [← h]
    exact (answer_repeats (by rw [h]; rintro _ ⟨⟩; exact ht) hm).1
  fault n e h := by
    obtain ⟨hposition, hskips⟩ := fault_after hsize h
    refine ⟨hposition, hskips, fun m hm => ?_⟩
    obtain ⟨hanswer, hafter⟩ := answer_repeats (by rw [h]; rintro _ ⟨⟩) hm
    rw [hanswer, hafter, h]
    exact ⟨rfl, rfl⟩

/-- Calling the scanner up to the first answer that is no token gives the tokens of the source. -/
theorem tokenize_answers (source : String) :
    ∃ ts, ts.length ≤ source.length ∧ (∀ t ∈ ts, t.isEnd = false) ∧
      (List.range ts.length).map (ofSource source).answer = ts.map .ok ∧
      ((∃ t, t.isEnd = true ∧ (ofSource source).answer ts.length = .ok t ∧
        tokenize source = .ok ts) ∨
      ∃ e, (ofSource source).answer ts.length = .error e ∧ tokenize source = .error e) := by
  obtain ⟨ts, htokens, hlength, hends, hanswers, hlast⟩ := stream_answers [] (ofSource source)
  have htokens : (TokenStream.ofSource source).tokens = ts := htokens
  have hlast : (ofSource source).answer ts.length = (TokenStream.ofSource source).ending.answer :=
    hlast
  refine ⟨ts, hlength, hends, hanswers, ?_⟩
  unfold tokenize
  cases hstream : TokenStream.ofSource source with
  | mk tokens ending =>
      rw [hstream] at htokens hlast
      obtain rfl : tokens = ts := htokens
      cases ending with
      | complete offset => exact .inl ⟨_, rfl, hlast, rfl⟩
      | fault e => exact .inr ⟨e, hlast, rfl⟩

/-- **The cursor is kept in order over all calls.** However often a scanner of a source of less than
`2 ^ 32` bytes is called, its cursor lies between characters of the source and never moves back; a
token moves it up to the end of the token, and after the end of the input or a fault every call
answers the same. One of these comes after no more calls than there are characters, and the answers
before it are the tokens of the source. A scanner that is moved to another source, from wherever its
cursor is, answers as a new one does. -/
theorem calls_on_source {source : String} (hsize : source.utf8ByteSize < 2 ^ 32) :
    Orderly source (ofSource source) ∧
    (∃ ts, ts.length ≤ source.length ∧ (∀ t ∈ ts, t.isEnd = false) ∧
      (List.range ts.length).map (ofSource source).answer = ts.map .ok ∧
      ((∃ t, t.isEnd = true ∧ (ofSource source).answer ts.length = .ok t ∧
        tokenize source = .ok ts) ∨
      ∃ e, (ofSource source).answer ts.length = .error e ∧ tokenize source = .error e)) ∧
    ∀ n other m, (((ofSource source).after n).init other).after m = (ofSource other).after m ∧
      (((ofSource source).after n).init other).answer m = (ofSource other).answer m :=
  ⟨orderly_ofSource hsize, tokenize_answers source, fun _ _ _ => ⟨rfl, rfl⟩⟩

/-- A token, then a comment, then a character that is no token: the second call fails, and so does
every later one. -/
theorem calls_on_source_fault :
    ((ofSource "a/*é*/#").after 2).position = 7 ∧
      Text.Skips "a/*é*/#" ((ofSource "a/*é*/#").after 1).position 7 ∧
      ∀ m, 1 < m → (ofSource "a/*é*/#").answer m = .error (.unexpectedCharacter '#' 7) := by
  have hstream : TokenStream.ofSource "a/*é*/#" =
      ⟨[⟨.identifier, "a", ⟨0, 1⟩⟩], .fault (.unexpectedCharacter '#' 7)⟩ := by
    decide +kernel
  obtain ⟨ts, htokens, -, -, -, hanswer⟩ := stream_answers [] (ofSource "a/*é*/#")
  change (TokenStream.ofSource "a/*é*/#").tokens = ts at htokens
  change _ = (TokenStream.ofSource "a/*é*/#").ending.answer at hanswer
  rw [← htokens, hstream] at hanswer
  obtain ⟨horderly, -, -⟩ := calls_on_source (by decide : "a/*é*/#".utf8ByteSize < 2 ^ 32)
  obtain ⟨hposition, hskips, hlater⟩ := horderly.fault 1 _ hanswer
  have hposition : ((ofSource "a/*é*/#").after 2).position = 7 := hposition
  rw [hposition] at hskips
  exact ⟨hposition, hskips, fun m hm => (hlater m hm).1⟩

end Scanner

end LetterLang

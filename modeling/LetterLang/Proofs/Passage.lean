import LetterLang.Parser.State
import LetterLang.Proofs.Scanning

/-!
# How the scanner moves

`Scanner.next` skips text and reads a token in one go. Here its way through a source is taken apart
into single moves, each by the rule that applies at the cursor.

- `Scanner.Passes s ts s'`: the scanner gets from `s` to `s'` and reads the tokens `ts` on its way.
- `Scanner.Halts s`: there is no way on from `s`; `s.ending` says why.
- `Scanner.passes_stream`: the tokens of a stream are those read on the way to where the scanner
  halts, and the stream ends as it does there.
-/

namespace LetterLang

open Rule (first?)

/-! ## Bytes -/

namespace Text

theorem byteLength_pos {cs : List Char} (h : cs ≠ []) : 0 < byteLength cs := by
  obtain ⟨c, tail, rfl⟩ := List.exists_cons_of_ne_nil h
  rw [byteLength_cons]
  exact Nat.add_pos_left c.utf8Size_pos _

theorem size_utf8Encode (cs : List Char) : cs.utf8Encode.size = byteLength cs := by
  induction cs with
  | nil => rfl
  | cons c cs ih =>
      rw [List.utf8Encode_cons, ByteArray.size_append, ih, List.utf8Encode_singleton,
        byteLength_cons]
      simp

theorem utf8ByteSize_ofList (cs : List Char) : (String.ofList cs).utf8ByteSize = byteLength cs := by
  rw [← String.size_toByteArray, String.toByteArray_ofList, size_utf8Encode]

theorem utf8ByteSize_eq (source : String) : source.utf8ByteSize = byteLength source.toList := by
  rw [← utf8ByteSize_ofList, String.ofList_toList]

theorem extract_utf8Encode (before text after : List Char) :
    (before ++ (text ++ after)).utf8Encode.extract (byteLength before)
      (byteLength before + byteLength text) = text.utf8Encode := by
  rw [List.utf8Encode_append, List.utf8Encode_append, ← size_utf8Encode before,
    ← size_utf8Encode text]
  calc (before.utf8Encode ++ (text.utf8Encode ++ after.utf8Encode)).extract
          (before.utf8Encode.size + 0) (before.utf8Encode.size + text.utf8Encode.size)
      = (text.utf8Encode ++ after.utf8Encode).extract 0 text.utf8Encode.size :=
        ByteArray.extract_append_size_add
    _ = text.utf8Encode := ByteArray.extract_append_eq_left rfl

end Text

theorem Token.span_ofChars {k : TokenKind} {cs : List Char} {offset : Nat}
    (h : offset + Text.byteLength cs < 2 ^ 32) :
    (ofChars k cs offset).span.start.toNat = offset ∧
      (ofChars k cs offset).span.length.toNat = Text.byteLength cs := by
  constructor
  · exact UInt32.toNat_ofNat_of_lt' (Nat.lt_of_le_of_lt (Nat.le_add_right _ _) h)
  · exact UInt32.toNat_ofNat_of_lt' (Nat.lt_of_le_of_lt (Nat.le_add_left _ _) h)

/-- What a call of the scanner answers where the tokens end. -/
def Ending.answer : Ending → Except ScanError Token
  | .complete offset => .ok (.endOfInput offset)
  | .fault e => .error e

theorem Ending.eq_of_answer {ending : Ending} {t : Token} (h : ending.answer = .ok t) :
    ∃ offset, ending = .complete offset ∧ t = .endOfInput offset := by
  cases ending with
  | complete offset =>
      cases h
      exact ⟨offset, rfl, rfl⟩
  | fault e => cases h

theorem Ending.answer_eq_error {ending : Ending} {e : ScanError} (h : ending.answer = .error e) :
    ending = .fault e := by
  cases ending with
  | complete offset => cases h
  | fault e' =>
      cases h
      rfl

namespace Scanner

open Text (byteLength)

/-! ## Moves -/

theorem take_ne_nil {s : Scanner} {rule : Rule} {n : Nat} (hr : first? s.rest = some (rule, n)) :
    s.rest.take n ≠ [] := by
  intro hnil
  have hlt := length_rest_advance hr
  have hrest := List.take_append_drop n s.rest
  rw [hnil, List.nil_append] at hrest
  rw [advance, hrest] at hlt
  exact Nat.lt_irrefl _ hlt

/-- What a rule reads is not the end of the input. -/
theorem isEnd_ofChars {s : Scanner} {kind : TokenKind} {pattern : Pattern} {n : Nat}
    (hr : first? s.rest = some (⟨some kind, pattern⟩, n)) :
    (Token.ofChars kind (s.rest.take n) s.position).isEnd = false := by
  apply decide_eq_false
  intro hk
  have hsp := Rule.first?_spelled hr
  rw [show kind = .endOfInput from hk] at hsp
  exact hsp

theorem bytes_advance (s : Scanner) (n : Nat) :
    (s.advance n).position + byteLength (s.advance n).rest = s.position + byteLength s.rest := by
  rw [advance, Nat.add_assoc, ← Text.byteLength_append, List.take_append_drop]

theorem bytes_ofSource (source : String) :
    (ofSource source).position + byteLength (ofSource source).rest = source.utf8ByteSize := by
  rw [Text.utf8ByteSize_eq]
  exact Nat.zero_add _

theorem position_advance_le (s : Scanner) (n : Nat) :
    s.position + byteLength (s.rest.take n) ≤ s.position + byteLength s.rest :=
  bytes_advance s n ▸ Nat.le_add_right _ _

/-- The characters of a move stand before those that are read from the next cursor on. -/
theorem read_advance {s s' : Scanner} {n : Nat} {cs : List Char}
    (hrest : (s.advance n).rest = cs ++ s'.rest)
    (hpos : s'.position = (s.advance n).position + byteLength cs) :
    s.rest = s.rest.take n ++ cs ++ s'.rest ∧
      s'.position = s.position + byteLength (s.rest.take n ++ cs) := by
  constructor
  · rw [List.append_assoc, ← hrest]
    exact (List.take_append_drop n s.rest).symm
  · rw [hpos, Text.byteLength_append, ← Nat.add_assoc]
    rfl

/-- The scanner gets from one cursor to another and reads some tokens on its way. -/
inductive Passes : Scanner → List Token → Scanner → Prop
  | done {s} : Passes s [] s
  | skip {s s' pattern n ts} : opensComment s.rest = false →
      first? s.rest = some (⟨none, pattern⟩, n) → Passes (s.advance n) ts s' → Passes s ts s'
  | token {s s' kind pattern n ts} : opensComment s.rest = false →
      first? s.rest = some (⟨some kind, pattern⟩, n) → Passes (s.advance n) ts s' →
      Passes s (.ofChars kind (s.rest.take n) s.position :: ts) s'

variable {s s' s₁ : Scanner} {ts ts' : List Token}

namespace Passes

theorem trans (h : Passes s ts s₁) (h' : Passes s₁ ts' s') : Passes s (ts ++ ts') s' := by
  induction h with
  | done => exact h'
  | skip hc hr _ ih => exact .skip hc hr (ih h')
  | token hc hr _ ih => exact .token hc hr (ih h')

/-- A way that reads some tokens and then others goes through a cursor between them. -/
theorem split (h : Passes s (ts ++ ts') s') : ∃ s₁, Passes s ts s₁ ∧ Passes s₁ ts' s' := by
  generalize hall : ts ++ ts' = all at h
  induction h generalizing ts with
  | done =>
      obtain ⟨rfl, rfl⟩ := List.append_eq_nil_iff.1 hall
      exact ⟨_, .done, .done⟩
  | skip hc hr _ ih =>
      obtain ⟨s₁, hfirst, hlast⟩ := ih hall
      exact ⟨s₁, .skip hc hr hfirst, hlast⟩
  | @token s _ _ _ _ _ hc hr h ih =>
      cases ts with
      | nil =>
          have hall : ts' = _ := hall
          exact ⟨s, .done, hall ▸ .token hc hr h⟩
      | cons t ts =>
          obtain ⟨rfl, htail⟩ := List.cons_eq_cons.1 hall
          obtain ⟨s₁, hfirst, hlast⟩ := ih htail
          exact ⟨s₁, .token hc hr hfirst, hlast⟩

theorem read (h : Passes s ts s') :
    ∃ cs, s.rest = cs ++ s'.rest ∧ s'.position = s.position + byteLength cs := by
  induction h with
  | done => exact ⟨[], rfl, rfl⟩
  | skip _ _ _ ih =>
      obtain ⟨cs, hrest, hpos⟩ := ih
      exact ⟨_, read_advance hrest hpos⟩
  | token _ _ _ ih =>
      obtain ⟨cs, hrest, hpos⟩ := ih
      exact ⟨_, read_advance hrest hpos⟩

theorem exists_append {source : String} (h : Passes (.ofSource source) ts s') :
    ∃ before after, source = before ++ after ∧ before.utf8ByteSize = s'.position ∧
      source.toList = before.toList ++ s'.rest := by
  obtain ⟨cs, hrest, hpos⟩ := h.read
  have hrest : source.toList = cs ++ s'.rest := hrest
  have hpos : s'.position = 0 + byteLength cs := hpos
  refine ⟨String.ofList cs, String.ofList s'.rest, ?_, ?_, ?_⟩
  · rw [← String.toList_inj, String.toList_append, String.toList_ofList, String.toList_ofList, hrest]
  · rw [Text.utf8ByteSize_ofList, hpos, Nat.zero_add]
  · rw [String.toList_ofList, hrest]

theorem bytes (h : Passes s ts s') :
    s'.position + byteLength s'.rest = s.position + byteLength s.rest := by
  obtain ⟨cs, hrest, hpos⟩ := h.read
  rw [hpos, hrest, Text.byteLength_append, Nat.add_assoc]

/-- The stream is the same from every cursor on the way, but for the tokens already read. -/
theorem streamAfter_eq (h : Passes s ts s') (read : List Token) :
    s.streamAfter read = s'.streamAfter (ts.reverse ++ read) := by
  induction h generalizing read with
  | done => rfl
  | @skip s s' _ n _ hc hr _ ih =>
      rw [← ih]
      rw [streamAfter, streamAfter, next_of_skip hc hr]
  | @token s s' kind _ n ts hc hr _ ih =>
      rw [streamAfter_of_token (next_of_token hc hr) (isEnd_ofChars hr), ih, List.reverse_cons,
        List.append_assoc]
      rfl

end Passes

/-! ## Where the scanner halts -/

/-- No rule leads on from the cursor. -/
def Halts (s : Scanner) : Prop :=
  opensComment s.rest = true ∨ first? s.rest = none

def ending (s : Scanner) : Ending :=
  match s.rest with
  | [] => .complete (UInt32.ofNat s.position)
  | c :: cs =>
    if opensComment (c :: cs) then .fault (.unterminatedComment (UInt32.ofNat s.position))
    else .fault (unmatched (c :: cs) s.position)

theorem unmatched_cons (c : Char) (cs : List Char) (position : Nat) :
    unmatched (c :: cs) position =
      if c = '"' ∨ c = '\'' then .unterminatedString c (UInt32.ofNat position)
      else .unexpectedCharacter c (UInt32.ofNat position) :=
  rfl

theorem span_unmatched (rest : List Char) (position : Nat) :
    (unmatched rest position).span.start = UInt32.ofNat position := by
  cases rest with
  | nil => rfl
  | cons c cs =>
      rw [unmatched_cons]
      split <;> rfl

theorem offset_ending (s : Scanner) : s.ending.offset = UInt32.ofNat s.position := by
  unfold ending
  split
  · rfl
  · split
    · rfl
    · exact span_unmatched _ _

theorem ending_complete_iff : (∃ offset, s.ending = .complete offset) ↔ s.rest = [] := by
  unfold ending
  split
  · next h => exact ⟨fun _ => h, fun _ => ⟨_, rfl⟩⟩
  · next h =>
    rw [h]
    refine ⟨?_, nofun⟩
    rintro ⟨offset, he⟩
    split at he <;> cases he

theorem next_of_opensComment (hc : opensComment s.rest = true) :
    s.next = (.error (.unterminatedComment (UInt32.ofNat s.position)), s) := by
  have hne : s.rest ≠ [] := by
    intro hs
    rw [hs] at hc
    cases hc
  rw [next, List.isEmpty_eq_false_iff.2 hne, if_neg Bool.false_ne_true, if_pos hc]

theorem next_of_unmatched (hs : s.rest ≠ []) (hc : opensComment s.rest = false)
    (hr : first? s.rest = none) : s.next = (.error (unmatched s.rest s.position), s) := by
  rw [next, List.isEmpty_eq_false_iff.2 hs, hc, if_neg Bool.false_ne_true,
    if_neg Bool.false_ne_true]
  split
  · rfl
  · next h => cases h.symm.trans hr
  · next h => cases h.symm.trans hr

theorem streamAfter_of_error {read : List Token} {e : ScanError} (h : s.next = (.error e, s')) :
    s.streamAfter read = ⟨read.reverse, .fault e⟩ := by
  rw [streamAfter]
  split
  · next h' =>
    cases h'.symm.trans h
    rfl
  · next h' => cases h'.symm.trans h

/-- Where the scanner halts, a call answers how the tokens end, and the cursor stays. -/
theorem next_of_halts (h : s.Halts) : s.next = (s.ending.answer, s) := by
  unfold ending
  split
  · next hs => exact next_of_nil hs
  · next c cs hs =>
    by_cases hc : opensComment s.rest = true
    · rw [← hs, if_pos hc]
      exact next_of_opensComment hc
    · rw [← hs, if_neg hc]
      have hr : first? s.rest = none := h.resolve_left hc
      have hne : s.rest ≠ [] := by simp [hs]
      exact next_of_unmatched hne (by simpa using hc) hr

theorem streamAfter_of_halts (h : s.Halts) (read : List Token) :
    s.streamAfter read = ⟨read.reverse, s.ending⟩ := by
  have hnext := next_of_halts h
  cases hending : s.ending with
  | complete offset =>
      rw [hending] at hnext
      exact streamAfter_of_end hnext rfl
  | fault e =>
      rw [hending] at hnext
      exact streamAfter_of_error hnext

/-- From every cursor the scanner gets to where it halts. -/
theorem exists_halts (s : Scanner) : ∃ ts s', Passes s ts s' ∧ s'.Halts := by
  induction hn : s.rest.length using Nat.strongRecOn generalizing s with
  | ind n ih =>
      by_cases hc : opensComment s.rest = true
      · exact ⟨[], s, .done, .inl hc⟩
      · have hc : opensComment s.rest = false := by simpa using hc
        cases hr : first? s.rest with
        | none => exact ⟨[], s, .done, .inr hr⟩
        | some found =>
            obtain ⟨⟨kind, pattern⟩, m⟩ := found
            have hlt : (s.advance m).rest.length < n := hn ▸ length_rest_advance hr
            obtain ⟨ts, s', h, hhalt⟩ := ih _ hlt (s.advance m) rfl
            cases kind with
            | none => exact ⟨ts, s', .skip hc hr h, hhalt⟩
            | some kind => exact ⟨_, s', .token hc hr h, hhalt⟩

/-- **The stream is what the scanner passes.** Its tokens are those read on the way to where the
scanner halts, and it ends as the scanner does there. -/
theorem passes_stream (s : Scanner) :
    ∃ s', Passes s s.stream.tokens s' ∧ s'.Halts ∧ s.stream.ending = s'.ending := by
  obtain ⟨ts, s', h, hhalt⟩ := exists_halts s
  have hstream : s.stream = ⟨ts, s'.ending⟩ := by
    rw [stream, h.streamAfter_eq, streamAfter_of_halts hhalt]
    simp
  rw [hstream]
  exact ⟨s', h, hhalt, rfl⟩

end Scanner

end LetterLang

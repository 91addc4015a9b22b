import LetterLang.Proofs.CorrectPrefix
import LetterLang.Proofs.Failure

/-!
# Errors point at the text they speak of

An error has a span. Where the error is made it is known only as a token that was next, as an
operator already consumed, or as a cursor; the span is computed there from offsets and lengths. Here
it is shown to mark a stretch of the source, and that stretch to be what the error says it is.

- `Span.Marks`: the text at a span, and what comes behind it. Text is made of characters, so both
  ends of the span lie between characters.
- `ParseError.Describes`: what an error says of the text at its span.
- `parse_error_describes`: every error of a parse says the truth.
-/

namespace LetterLang

open Parse
open Text (byteLength)

variable {source : String} {limit : UInt32}

/-! ## Text at a span -/

/-- The text `text` stands at the span, with `after` behind it. -/
def Span.Marks (span : Span) (source text after : String) : Prop :=
  ∃ before, source = before ++ text ++ after ∧ before.utf8ByteSize = span.start.toNat ∧
    text.utf8ByteSize = span.length.toNat

theorem Span.Marks.ofChars {span : Span} (before text after : List Char)
    (hsource : source.toList = before ++ (text ++ after))
    (hstart : span.start.toNat = byteLength before) (hlength : span.length.toNat = byteLength text) :
    span.Marks source (String.ofList text) (String.ofList after) := by
  refine ⟨String.ofList before, ?_, ?_, ?_⟩
  · rw [← String.toList_inj, hsource]
    simp
  · rw [Text.utf8ByteSize_ofList, hstart]
  · rw [Text.utf8ByteSize_ofList, hlength]

theorem Span.Marks.stop_le {span : Span} {text after : String} (h : span.Marks source text after) :
    span.stop ≤ source.utf8ByteSize := by
  obtain ⟨before, rfl, hstart, hlength⟩ := h
  rw [String.utf8ByteSize_append, String.utf8ByteSize_append, Span.stop]
  omega

def AssignOp.symbols : List String :=
  ["=", "+=", "-=", "*=", "/="]

/-- What an error says of the text at its span, with `after` behind it. -/
def ParseError.Describes (source text after : String) : ParseError → Prop
  | .grammar (.unexpectedToken found _ span) | .grammar (.expressionExpected found span)
  | .grammar (.unexpectedLiteral found span) =>
    text = found ∧ ∃ t ∈ (TokenStream.ofSource source).tokens, t.text = found ∧ t.span = span
  | .grammar (.invalidTarget _ _) => text ∈ AssignOp.symbols
  | .grammar (.unexpectedEnd _ _) => text = "" ∧ after = ""
  | .grammar (.nestingTooDeep _ span) =>
    (∃ t ∈ (TokenStream.ofSource source).tokens, t.text = text ∧ t.span = span) ∨
      text = "" ∧ after = ""
  | .scan (.unexpectedCharacter c _) => text = String.ofList [c]
  | .scan (.unterminatedString quote _) => text = String.ofList [quote] ∧ quote ∉ after.toList
  | .scan (.unterminatedComment _) => text = "/*" ∧ ¬ ['*', '/'] <:+: after.toList

/-! ## Tokens and the end of the source -/

/-- The text of a token stands at its span. -/
theorem Interleaved.exists_at_span {offset : Nat} {cs rest : List Char} {ts : List Token}
    (h : Interleaved offset cs ts rest) :
    ∀ t ∈ ts, ∃ before after, cs = before ++ (t.text.toList ++ after) ∧
      t.span.start.toNat = offset + byteLength before ∧
      t.span.length.toNat = byteLength t.text.toList := by
  induction h with
  | last => simp
  | @token offset gap cs rest t ts _ _ _ hstart hlength _ ih =>
      intro u hu
      rcases List.mem_cons.1 hu with rfl | hu
      · exact ⟨gap, cs, rfl, hstart, hlength⟩
      · obtain ⟨before, after, rfl, hstart', hlength'⟩ := ih u hu
        refine ⟨gap ++ (t.text.toList ++ before), after, by simp, ?_, hlength'⟩
        rw [hstart', Span.stop, hstart, hlength, Text.byteLength_append, Text.byteLength_append]
        omega

namespace TokenStream

theorem marks_of_mem (hsize : source.utf8ByteSize < 2 ^ 32) {t : Token}
    (ht : t ∈ (ofSource source).tokens) : ∃ after, t.span.Marks source t.text after := by
  obtain ⟨s', hpasses, -, -⟩ := Scanner.passes_stream (.ofSource source)
  have hall := hpasses.interleaved (Scanner.bytes_ofSource source ▸ hsize)
  obtain ⟨before, after, hsource, hstart, hlength⟩ := hall.exists_at_span t ht
  have hmarks := Span.Marks.ofChars before t.text.toList after hsource (hstart.trans (Nat.zero_add _)) hlength
  rw [String.ofList_toList] at hmarks
  exact ⟨_, hmarks⟩

/-- The cursor where the scanner halts, in the source. -/
theorem exists_halts (hsize : source.utf8ByteSize < 2 ^ 32) :
    ∃ (before : List Char) (s' : Scanner), source.toList = before ++ s'.rest ∧ s'.Halts ∧
      (ofSource source).ending = s'.ending ∧
      (UInt32.ofNat s'.position).toNat = byteLength before := by
  obtain ⟨s', hpasses, hhalts, hending⟩ := Scanner.passes_stream (.ofSource source)
  obtain ⟨before, hread, hpos⟩ := hpasses.read
  refine ⟨before, s', hread, hhalts, hending, ?_⟩
  have hread : source.toList = before ++ s'.rest := hread
  have hpos : s'.position = 0 + byteLength before := hpos
  rw [Text.utf8ByteSize_eq, hread, Text.byteLength_append] at hsize
  rw [UInt32.toNat_ofNat_of_lt' (Nat.lt_of_le_of_lt (by omega) hsize), hpos, Nat.zero_add]

theorem marks_end (hsize : source.utf8ByteSize < 2 ^ 32) {offset : UInt32}
    (h : (ofSource source).ending = .complete offset) : (Span.empty offset).Marks source "" "" := by
  obtain ⟨before, s', hread, -, hending, hpos⟩ := exists_halts hsize
  rw [hending] at h
  have hnil : s'.rest = [] := Scanner.ending_complete_iff.1 ⟨offset, h⟩
  have hoffset : offset = UInt32.ofNat s'.position := by
    rw [← Scanner.offset_ending, h]
    rfl
  rw [hnil] at hread
  exact .ofChars before [] [] hread (by rw [Span.empty, hoffset, hpos]) rfl

/-- A place that cannot be scanned is what its error says. -/
theorem marks_fault (hsize : source.utf8ByteSize < 2 ^ 32) {e : ScanError}
    (h : (ofSource source).ending = .fault e) :
    ∃ text after, e.span.Marks source text after ∧
      (ParseError.scan e).Describes source text after := by
  obtain ⟨before, s', hread, hhalts, hending, hpos⟩ := exists_halts hsize
  rw [hending] at h
  unfold Scanner.ending at h
  split at h
  · cases h
  · next c cs hrest =>
    rw [hrest] at hread
    split at h
    · next hcomment =>
      cases h
      obtain ⟨tail, heq, hnot⟩ := Scanner.opensComment_iff.1 hcomment
      rw [heq] at hread
      refine ⟨_, _, .ofChars before ['/', '*'] tail hread hpos rfl, rfl, ?_⟩
      rwa [String.toList_ofList]
    · next hcomment =>
      cases h
      rw [Scanner.Halts, hrest] at hhalts
      have hfirst : Rule.first? (c :: cs) = none := hhalts.resolve_left hcomment
      refine ⟨String.ofList [c], String.ofList cs, ?_⟩
      rcases Rule.unmatched_of_first? hfirst with ⟨hquote, hnot⟩ | ⟨hquote, -⟩
      · rw [Scanner.unmatched_cons, if_pos hquote]
        refine ⟨.ofChars before [c] cs hread hpos ?_, rfl, ?_⟩
        · rcases hquote with rfl | rfl <;> rfl
        · rwa [String.toList_ofList]
      · rw [Scanner.unmatched_cons, if_neg hquote]
        refine ⟨.ofChars before [c] cs hread hpos ?_, rfl⟩
        have hsmall : c.utf8Size < UInt32.size := Nat.lt_of_le_of_lt c.utf8Size_le_four (by decide)
        exact UInt32.toNat_ofNat_of_lt' hsmall

end TokenStream

/-! ## Errors -/

theorem mem_symbols_of_spelled {t : Lexeme} (ht : t.Spelled) (hk : t.1.isAssignment = true) :
    t.2 ∈ AssignOp.symbols := by
  obtain ⟨op, hop⟩ := Option.ne_none_iff_exists'.1 (Grammar.assignOp_of_spelled ht hk)
  have hsymbol : op.symbol = t.2 := by simpa using List.find?_some hop
  have hop : op ∈ AssignOp.all := List.mem_of_find?_eq_some hop
  exact hsymbol ▸ List.mem_map_of_mem hop

/-- What an error says of the state in which a parse stops, it says of the source. -/
theorem Parse.Explains.describes (hsize : source.utf8ByteSize < 2 ^ 32) {s : ParseState}
    {e : ParseError} (hpending : ∀ t ∈ s.pending, t ∈ (TokenStream.ofSource source).tokens)
    (hcomplete : s.pending = [] → ((TokenStream.ofSource source).setting limit).Complete)
    (h : Explains ((TokenStream.ofSource source).setting limit)
      (· ∈ (TokenStream.ofSource source).tokens) s (.failed e)) :
    ∃ text after, e.span.Marks source text after ∧ e.Describes source text after := by
  have hnext : ∀ {t rest}, s.pending = t :: rest → t ∈ (TokenStream.ofSource source).tokens := by
    intro t rest hp
    exact hpending t (hp ▸ List.mem_cons_self)
  cases h with
  | fault he => exact TokenStream.marks_fault hsize he
  | @unexpectedToken t _ _ hp =>
      obtain ⟨after, hmarks⟩ := TokenStream.marks_of_mem hsize (hnext hp)
      exact ⟨t.text, after, hmarks, rfl, t, hnext hp, rfl, rfl⟩
  | @expressionExpected t _ hp =>
      obtain ⟨after, hmarks⟩ := TokenStream.marks_of_mem hsize (hnext hp)
      exact ⟨t.text, after, hmarks, rfl, t, hnext hp, rfl, rfl⟩
  | @unexpectedLiteral t _ hp =>
      obtain ⟨after, hmarks⟩ := TokenStream.marks_of_mem hsize (hnext hp)
      exact ⟨t.text, after, hmarks, rfl, t, hnext hp, rfl, rfl⟩
  | unexpectedEnd hp _ =>
      obtain ⟨offset, hend⟩ := hcomplete hp
      refine ⟨"", "", ?_, rfl, rfl⟩
      rw [hend]
      exact TokenStream.marks_end hsize hend
  | nestingTooDeep =>
      unfold ParseState.lookahead
      cases hp : s.pending with
      | nil =>
          obtain ⟨offset, hend⟩ := hcomplete hp
          refine ⟨"", "", ?_, .inr ⟨rfl, rfl⟩⟩
          rw [hend]
          exact TokenStream.marks_end hsize hend
      | cons t rest =>
          obtain ⟨after, hmarks⟩ := TokenStream.marks_of_mem hsize (hnext hp)
          exact ⟨t.text, after, hmarks, .inl ⟨t, hnext hp, rfl, rfl⟩⟩
  | @invalidTarget t _ ht hk =>
      obtain ⟨after, hmarks⟩ := TokenStream.marks_of_mem hsize ht
      exact ⟨t.text, after, hmarks, mem_symbols_of_spelled (TokenStream.ofSource_spelled source t ht) hk⟩
  | unknownOperator ht hnot => exact absurd (TokenStream.ofSource_spelled source _ ht) hnot

/-- **Errors point at the text they speak of.** The span of an error lies within its source, and the
text there is the token that the error names, the operator of the assignment that it refuses, the
empty text at the end, the character that no rule matches, or the opening of what is never closed. -/
theorem parse_error_describes {limit : UInt32} {source : String} {e : ParseError}
    (hsize : source.utf8ByteSize < 2 ^ 32) (h : parse limit source = .error e) :
    e.span.stop ≤ source.utf8ByteSize ∧
      ∃ text after, e.span.Marks source text after ∧ e.Describes source text after := by
  have hall : ∃ text after, e.span.Marks source text after ∧ e.Describes source text after := by
    rcases parse_fault_or_outcome source with ⟨fault, hstream, hparse⟩ | ⟨hstart, hparse⟩
    · cases (hparse limit).symm.trans h
      exact TokenStream.marks_fault hsize (congrArg TokenStream.ending hstream)
    · rw [hparse] at h
      obtain ⟨s', herror⟩ := Program.eq_error_of_outcome h
      have hknows : (TokenStream.ofSource source).start.Knows
          (· ∈ (TokenStream.ofSource source).tokens) := fun _ ht => ht
      obtain ⟨hreach, hexplains⟩ := Program.parse_accounts.error hknows herror
      exact hexplains.describes hsize (hreach.knows hknows) (hreach.complete hstart)
  obtain ⟨text, after, hmarks, hdescribes⟩ := hall
  exact ⟨hmarks.stop_le, text, after, hmarks, hdescribes⟩

/-- A string with a character of two bytes is no target. -/
theorem parse_error_describes_string :
    parse 8 "'é' += 2;" = .error (.grammar (.invalidTarget (.node .stringLiteral) ⟨5, 2⟩)) ∧
      ∃ text after, (⟨5, 2⟩ : Span).Marks "'é' += 2;" text after ∧ text ∈ AssignOp.symbols := by
  have hstream : TokenStream.ofSource "'é' += 2;" =
      ⟨[⟨.string, "'é'", ⟨0, 4⟩⟩, ⟨.complexAssign, "+=", ⟨5, 2⟩⟩, ⟨.number, "2", ⟨8, 1⟩⟩,
        ⟨.delimiter .semicolon, ";", ⟨9, 1⟩⟩], .complete 10⟩ := by
    decide +kernel
  have herror : parse 8 "'é' += 2;" =
      .error (.grammar (.invalidTarget (.node .stringLiteral) ⟨5, 2⟩)) := by
    rw [parse_eq_outcome, hstream]
    rfl
  exact ⟨herror, (parse_error_describes (by decide) herror).2⟩

end LetterLang

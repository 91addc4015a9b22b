import LetterLang.Proofs.Acceptance
import LetterLang.Proofs.Climbing
import LetterLang.Proofs.CorrectPrefix
import LetterLang.Proofs.Failure

/-!
# What a parse has scanned

A parse scans its source no further than the next token. At every moment the tokens that it has
consumed and the next one are the first tokens of the source, and a parse that succeeds has consumed
all of them.

Where a source cannot be scanned to its end, it depends on the parse which error comes first: the
fault itself, when the lookahead would move onto it, or an error about a token before it. There is
no third way, since the end of the input is reached only where the source can be scanned.

- `TokenStream.tokens_eq_of_parse`: the tokens consumed and those pending are the tokens of the
  stream.
- `Program.pending_of_ok`: a parse that succeeds has no tokens left.
- `Parse.Explains.stop_le`: an error of the grammar is about a token of the source, unless the input
  has ended.
- `parse_agrees_with_tokenize`: what the parse and the scanner say about a source.
-/

namespace LetterLang

open Parse

variable {g : Setting} {known : Token → Prop} {s s' : ParseState} {limit : UInt32} {source : String}

/-! ## The tokens of a parse -/

namespace TokenStream

theorem reaches_parse (stream : TokenStream) (limit : UInt32) :
    stream.start.Reaches (stream.setting limit) false (endState (stream.parse limit)) := by
  by_cases h : stream.tokens = [] → ∃ offset, stream.ending = .complete offset
  · have haccounts : Accounts (stream.setting limit) (fun _ => True) false
        (Program.parse (stream.setting limit)) := Program.parse_accounts
    rw [parse_eq h]
    exact (haccounts stream.start fun _ _ => trivial).reaches
  · obtain ⟨tokens, ending⟩ := stream
    rw [Classical.not_imp] at h
    obtain ⟨rfl, hnot⟩ := h
    cases ending with
    | complete offset => exact absurd ⟨offset, rfl⟩ hnot
    | fault e => exact .refl _

theorem tokens_eq_of_parse (stream : TokenStream) (limit : UInt32) :
    stream.tokens = (endState (stream.parse limit)).consumed.reverse ++
      (endState (stream.parse limit)).pending := by
  obtain ⟨used, hpending, hconsumed, -⟩ := (stream.reaches_parse limit).leads.tokens
  have hconsumed : (endState (stream.parse limit)).consumed = used.reverse ++ [] := hconsumed
  rw [hconsumed, List.append_nil, List.reverse_reverse]
  exact hpending

end TokenStream

theorem scannedTokens_eq (limit : UInt32) (source : String) :
    scannedTokens limit source =
      (endState ((TokenStream.ofSource source).parse limit)).scanned := by
  unfold scannedTokens
  cases (TokenStream.ofSource source).parse limit <;> rfl

/-- The tokens that have been scanned are the first tokens of the source. -/
theorem scannedTokens_isPrefix (limit : UInt32) (source : String) :
    scannedTokens limit source <+: (TokenStream.ofSource source).tokens := by
  rw [scannedTokens_eq, (TokenStream.ofSource source).tokens_eq_of_parse limit]
  exact (List.prefix_append_right_inj _).2 (List.take_prefix 1 _)

theorem ParseState.pending_of_kind (hspelled : ∀ t ∈ s.pending, t.lexeme.Spelled)
    (h : s.kind = .endOfInput) : s.pending = [] := by
  cases hp : s.pending with
  | nil => rfl
  | cons t rest =>
      have ht : t.lexeme.Spelled := hspelled t (hp ▸ List.mem_cons_self)
      rw [ParseState.kind, hp] at h
      rw [Token.lexeme, show t.kind = .endOfInput from h] at ht
      exact ht.elim

/-- **A parse that succeeds has no tokens left.** -/
theorem Program.pending_of_ok {p : Program} (hspelled : ∀ t ∈ s.pending, t.lexeme.Spelled)
    (h : Program.parse g s = .ok p s') : s'.pending = [] := by
  have hreach : s.Reaches g false s' := by
    have haccounts : Accounts g (fun _ => True) false (Program.parse g) := Program.parse_accounts
    exact haccounts.ok (fun _ _ => trivial) h
  obtain ⟨body, s₁, hbody, h⟩ := bind_eq_ok.1 h
  obtain ⟨-, rfl⟩ := pure_eq_ok.1 h
  obtain ⟨items, s₂, hloop, hbody⟩ := bind_eq_ok.1 hbody
  obtain ⟨-, rfl⟩ := pure_eq_ok.1 hbody
  have hrounds : ∀ items : List Statement, Advances true (do
      return (← Grammar.produce g .statement) :: items : Parse (List Statement)) :=
    fun items => (Grammar.advances_produce g .statement).bind fun _ => .pure _
  have hstop := whileKind_stops (by simp) (.of_advances hrounds) hloop
  refine ParseState.pending_of_kind ?_ (by simpa using hstop)
  intro t ht
  exact hspelled t (hreach.suffix.subset ht)

/-! ## Tokens before a place that cannot be scanned -/

theorem Scanner.Passes.stop_le {s s' : Scanner} {ts : List Token} (h : Passes s ts s')
    (hsize : s.position + Text.byteLength s.rest < 2 ^ 32) :
    ∀ t ∈ ts, t.span.stop ≤ s'.position := by
  intro t ht
  obtain ⟨before, after, rfl⟩ := List.append_of_mem ht
  obtain ⟨s₀, h₀, h⟩ := h.split
  obtain ⟨s₁, s₂, -, -, hlast, -, hstop, -⟩ := h.around (h₀.bytes ▸ hsize)
  obtain ⟨cs, -, hposition⟩ := hlast.read
  rw [← hstop, hposition]
  exact Nat.le_add_right _ _

theorem TokenStream.exists_last (hsize : source.utf8ByteSize < 2 ^ 32) :
    ∃ last, Scanner.Passes (.ofSource source) (ofSource source).tokens last ∧
      (ofSource source).ending.offset.toNat = last.position ∧
      last.position ≤ source.utf8ByteSize := by
  obtain ⟨last, hpasses, -, hending⟩ := Scanner.passes_stream (.ofSource source)
  change Scanner.Passes _ (ofSource source).tokens last at hpasses
  change (ofSource source).ending = last.ending at hending
  have hlast : last.position ≤ source.utf8ByteSize := by
    rw [← Scanner.bytes_ofSource, ← hpasses.bytes]
    exact Nat.le_add_right _ _
  refine ⟨last, hpasses, ?_, hlast⟩
  rw [hending, Scanner.offset_ending, UInt32.toNat_ofNat_of_lt' (Nat.lt_of_le_of_lt hlast hsize)]

/-- Tokens end before the offset at which the stream ends. -/
theorem TokenStream.stop_le_offset (hsize : source.utf8ByteSize < 2 ^ 32) :
    ∀ t ∈ (ofSource source).tokens, t.span.stop ≤ (ofSource source).ending.offset.toNat := by
  obtain ⟨last, hpasses, hoffset, -⟩ := exists_last hsize
  rw [← Scanner.bytes_ofSource] at hsize
  rw [hoffset]
  exact hpasses.stop_le hsize

/-- An error of the grammar is about a token that is known, unless the input has ended. -/
theorem Parse.Explains.stop_le {bound : Nat} {e : SyntaxError}
    (hbound : ∀ t, known t → t.span.stop ≤ bound) (hknows : s.Knows known) (hne : s.pending ≠ [])
    (h : Explains g known s (.failed (.grammar e))) :
    (∀ expected offset, e ≠ .unexpectedEnd expected offset) ∧ e.span.stop ≤ bound := by
  have hnext : ∀ {t rest}, s.pending = t :: rest → t.span.stop ≤ bound := fun hp =>
    hbound _ (hknows _ (hp ▸ List.mem_cons_self))
  cases h with
  | unexpectedToken hp => exact ⟨by rintro _ _ ⟨⟩, hnext hp⟩
  | expressionExpected hp => exact ⟨by rintro _ _ ⟨⟩, hnext hp⟩
  | unexpectedLiteral hp => exact ⟨by rintro _ _ ⟨⟩, hnext hp⟩
  | unexpectedEnd hp _ => exact absurd hp hne
  | nestingTooDeep =>
      obtain ⟨t, rest, hp⟩ := List.exists_cons_of_ne_nil hne
      refine ⟨by rintro _ _ ⟨⟩, ?_⟩
      rw [ParseState.lookahead, hp]
      exact hnext hp
  | invalidTarget ht _ => exact ⟨by rintro _ _ ⟨⟩, hbound _ ht⟩
  | unknownOperator ht _ => exact ⟨by rintro _ _ ⟨⟩, hbound _ ht⟩

/-! ## The parse and the scanner -/

theorem tokenize_eq_error {e : ScanError} :
    tokenize source = .error e ↔ (TokenStream.ofSource source).ending = .fault e := by
  unfold tokenize
  cases TokenStream.ofSource source with
  | mk tokens ending => cases ending <;> simp

theorem consumed_of_parse {p : Program} (h : parse limit source = .ok p) :
    ∃ ts s, tokenize source = .ok ts ∧ (TokenStream.ofSource source).parse limit = .ok p s ∧
      s.consumed.reverse = ts ∧ s.pending = [] := by
  obtain ⟨s, hparse⟩ := parse_eq_ok.1 h
  obtain ⟨hstart, hprogram⟩ := TokenStream.parse_eq_ok.1 hparse
  obtain ⟨⟨offset, hend⟩, -⟩ := Program.parse_sound (TokenStream.faces_start hstart) hprogram
  have hnil : s.pending = [] :=
    Program.pending_of_ok (TokenStream.ofSource_spelled source) hprogram
  have htokens := (TokenStream.ofSource source).tokens_eq_of_parse limit
  rw [hparse] at htokens
  have htokens : (TokenStream.ofSource source).tokens = s.consumed.reverse ++ s.pending := htokens
  rw [hnil, List.append_nil] at htokens
  refine ⟨_, s, tokenize_eq_ok.2 ⟨offset, ?_⟩, hparse, rfl, hnil⟩
  rw [← htokens]
  exact congrArg (TokenStream.mk _) hend

/-- The fault of a parse is the fault of its source. -/
theorem tokenize_of_parse_fault {e : ScanError} (h : parse limit source = .error (.scan e)) :
    tokenize source = .error e := by
  refine tokenize_eq_error.2 ?_
  rcases explains_of_parse h with ⟨fault, hstream, heq⟩ | ⟨-, s', -, -, hexplains⟩
  · cases heq
    exact congrArg TokenStream.ending hstream
  · cases hexplains with
    | fault hending => exact hending

/-- Where the source cannot be scanned, the parse fails there or at a token before. -/
theorem parse_of_tokenize_error {e : ScanError} (hsize : source.utf8ByteSize < 2 ^ 32)
    (h : tokenize source = .error e) :
    parse limit source = .error (.scan e) ∨
      ∃ error, parse limit source = .error (.grammar error) ∧
        (∀ expected offset, error ≠ .unexpectedEnd expected offset) ∧
        error.span.stop ≤ e.span.start.toNat := by
  cases hresult : parse limit source with
  | ok p =>
      obtain ⟨ts, -, htokens, -⟩ := consumed_of_parse hresult
      cases htokens.symm.trans h
  | error error =>
      cases error with
      | scan e' =>
          cases (tokenize_of_parse_fault hresult).symm.trans h
          exact .inl rfl
      | grammar error =>
          refine .inr ⟨error, rfl, ?_⟩
          have hending := tokenize_eq_error.1 h
          rcases explains_of_parse hresult with
            ⟨fault, -, heq⟩ | ⟨hstart, s', -, hreach, hexplains⟩
          · cases heq
          · have hne : s'.pending ≠ [] := by
              intro hnil
              obtain ⟨offset, hcomplete⟩ := hreach.complete hstart hnil
              cases hcomplete.symm.trans hending
            have hbound := TokenStream.stop_le_offset hsize
            rw [hending] at hbound
            exact hexplains.stop_le hbound (hreach.knows fun _ ht => ht) hne

/-- **The parse and the scanner agree.** The tokens that a parse has scanned, which are those in its
log, are the first tokens of the source. A parse that succeeds has scanned the source to its end and
has consumed each of its tokens once and in their order. The fault of a parse is the fault of the
source; and a source with a fault is not parsed, but fails with it, or with an error of the grammar
that ends before the fault and is not about the end of the input. -/
theorem parse_agrees_with_tokenize (limit : UInt32) {source : String}
    (hsize : source.utf8ByteSize < 2 ^ 32) :
    (scannedTokens limit source <+: (TokenStream.ofSource source).tokens ∧
      (parseLog limit source).filter (·.level = .trace) =
        (scannedTokens limit source).map fun t => ⟨.trace, "token " ++ t.display⟩) ∧
    (∀ p, parse limit source = .ok p → ∃ ts s, tokenize source = .ok ts ∧
      scannedTokens limit source = ts ∧ (TokenStream.ofSource source).parse limit = .ok p s ∧
      s.consumed.reverse = ts) ∧
    (∀ e, parse limit source = .error (.scan e) → tokenize source = .error e) ∧
    ∀ e, tokenize source = .error e → parse limit source = .error (.scan e) ∨
      ∃ error, parse limit source = .error (.grammar error) ∧
        (∀ expected offset, error ≠ .unexpectedEnd expected offset) ∧
        error.span.stop ≤ e.span.start.toNat := by
  refine ⟨⟨scannedTokens_isPrefix limit source, ?_⟩, ?_, ?_, ?_⟩
  · unfold parseLog
    rw [List.filter_append, List.filter_eq_self.2]
    · exact List.append_nil _
    · simp
  · intro p h
    obtain ⟨ts, s, htokens, hparse, hconsumed, hnil⟩ := consumed_of_parse h
    refine ⟨ts, s, htokens, ?_, hparse, hconsumed⟩
    rw [scannedTokens_eq, hparse]
    show s.consumed.reverse ++ s.pending.take 1 = ts
    rw [hnil, hconsumed]
    exact List.append_nil ts
  · intro e
    exact tokenize_of_parse_fault
  · intro e
    exact parse_of_tokenize_error hsize

/-- The second name does not fit, and what comes after it cannot be scanned. -/
theorem parse_agrees_with_tokenize_fault :
    tokenize "a b #" = .error (.unexpectedCharacter '#' 4) ∧
      scannedTokens 8 "a b #" <+: [⟨.identifier, "a", ⟨0, 1⟩⟩, ⟨.identifier, "b", ⟨2, 1⟩⟩] ∧
      ∃ error, parse 8 "a b #" = .error (.grammar error) ∧ error.span.stop ≤ 4 := by
  have hstream : TokenStream.ofSource "a b #" =
      ⟨[⟨.identifier, "a", ⟨0, 1⟩⟩, ⟨.identifier, "b", ⟨2, 1⟩⟩],
        .fault (.unexpectedCharacter '#' 4)⟩ := by
    decide +kernel
  have herror : parse 8 "a b #" = .error (.grammar
      (.unexpectedToken "b" (.token (.delimiter .semicolon)) ⟨2, 1⟩)) := by
    rw [parse_eq_outcome, hstream]
    rfl
  have hfault : tokenize "a b #" = .error (.unexpectedCharacter '#' 4) :=
    tokenize_eq_error.2 (congrArg TokenStream.ending hstream)
  obtain ⟨⟨hscanned, -⟩, -, -, hfails⟩ :=
    parse_agrees_with_tokenize 8 (by decide : "a b #".utf8ByteSize < 2 ^ 32)
  rw [hstream] at hscanned
  refine ⟨hfault, hscanned, ?_⟩
  rcases hfails _ hfault with hscan | ⟨error, hgrammar, -, hstop⟩
  · cases herror.symm.trans hscan
  · exact ⟨error, hgrammar, hstop⟩

end LetterLang

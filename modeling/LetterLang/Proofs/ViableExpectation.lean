import LetterLang.Proofs.Continuation
import LetterLang.Proofs.Guidance

/-!
# What an error calls for can stand there

An error says what its place calls for: a token, a name, or an expression. Take the source up to the
error, and let it go on with that on a new line. The parse then gets past it: it finds nothing wrong
with what it has, though it may miss what comes next, or nest too deep.

The parse of the source has come to its error by decisions on the token that does not fit. That the
parse of the continued source comes to the same place is what `Program.found_of_stuck` says of
tokens; here it is carried over to sources.

- `Expectation.MetBy`: the texts that meet an expectation.
- `Parse.Explains.expected`: an error that calls for something points at the next token.
- `parse_expectation_viable`: the expectation of an error can be met, and every text that meets it
  can stand in the place of the error.
-/

namespace LetterLang

open Parse

variable {source : String} {ts : List Token}

/-! ## Texts that meet an expectation -/

/-- The texts that meet an expectation: any name where a name or an expression is called for, and
elsewhere the token itself. -/
def Expectation.MetBy : Expectation → String → Prop
  | .expression, w | .token .identifier, w => Lexeme.isName w = true
  | .token .simpleAssign, w => w = "="
  | .token (.delimiter d), w => w = d.text
  | .token (.keyword k), w => w = k.text
  | _, _ => False

namespace Expectation

variable {expected : Expectation} {k : TokenKind} {w : String}

theorem MetBy.spelled (h : expected.MetBy w) (hk : expected.start? = some k) :
    Lexeme.Spelled (k, w) := by
  cases expected with
  | expression =>
      cases hk
      exact h
  | token _ =>
      cases hk
      cases k with
      | identifier | simpleAssign | delimiter | keyword => exact h
      | _ => exact h.elim
  | _ => cases hk

/-- What a place calls for has a text. -/
theorem exists_metBy (hk : expected.start? = some k) (hcalled : k.isCalledFor = true) :
    ∃ w, expected.MetBy w := by
  have hname : Lexeme.isName "x" = true := by decide
  cases expected with
  | expression => exact ⟨"x", hname⟩
  | token _ =>
      cases hk
      cases k with
      | identifier => exact ⟨"x", hname⟩
      | simpleAssign => exact ⟨"=", rfl⟩
      | delimiter d => exact ⟨d.text, rfl⟩
      | keyword k => exact ⟨k.text, rfl⟩
      | _ => cases hcalled
  | _ => cases hk

end Expectation

/-! ## The place of an error -/

/-- An error that calls for something is about the next token, or the end of the input. -/
theorem Parse.Explains.expected {g : Setting} {known : Token → Prop} {s : ParseState}
    {e : SyntaxError} {expected : Expectation} (h : Explains g known s (.failed (.grammar e)))
    (hknown : ∀ t, known t → t.lexeme.Spelled) (he : e.expected? = some expected) :
    e.span = (s.lookahead g).span ∧ ∃ k, expected.start? = some k := by
  unfold ParseState.lookahead
  cases h with
  | unexpectedToken hp =>
      cases he
      exact ⟨by rw [hp]; rfl, _, rfl⟩
  | expressionExpected hp =>
      cases he
      exact ⟨by rw [hp]; rfl, _, rfl⟩
  | unexpectedEnd hp hk =>
      cases he
      exact ⟨by rw [hp]; rfl, _, hk⟩
  | unknownOperator ht hnot => exact absurd (hknown _ ht) hnot
  | unexpectedLiteral _ | nestingTooDeep | invalidTarget _ _ => cases he

/-- Before the next token, or where the tokens end, a cursor stands on the way of the scanner. -/
theorem TokenStream.passes_lookahead (limit : UInt32) (hsize : source.utf8ByteSize < 2 ^ 32)
    {s : ParseState} (htokens : (ofSource source).tokens = ts ++ s.pending) :
    ∃ s', Scanner.Passes (.ofSource source) ts s' ∧
      s'.position = (s.lookahead ((ofSource source).setting limit)).span.start.toNat := by
  obtain ⟨last, hpasses, -, hending⟩ := Scanner.passes_stream (.ofSource source)
  change Scanner.Passes _ (ofSource source).tokens last at hpasses
  change (ofSource source).ending = last.ending at hending
  rw [htokens] at hpasses
  rw [← Scanner.bytes_ofSource] at hsize
  unfold ParseState.lookahead
  cases hp : s.pending with
  | nil =>
      rw [hp, List.append_nil] at hpasses
      have hle : last.position ≤ _ := Nat.le_add_right _ (Text.byteLength last.rest)
      rw [hpasses.bytes] at hle
      refine ⟨last, hpasses, ?_⟩
      show last.position = (ofSource source).ending.offset.toNat
      rw [hending, Scanner.offset_ending, UInt32.toNat_ofNat_of_lt' (Nat.lt_of_le_of_lt hle hsize)]
  | cons t rest =>
      rw [hp] at hpasses
      obtain ⟨s₀, h₀, h⟩ := hpasses.split
      obtain ⟨s₁, s₂, h₁, -, -, hstart, -⟩ := h.around (h₀.bytes ▸ hsize)
      exact ⟨s₁, List.append_nil ts ▸ h₀.trans h₁, hstart⟩

/-! ## The continued source -/

/-- A parse that fails for want of a token of the kind `k` gets past such a token. -/
theorem Program.found_of_error {g : Setting} {s s₁ : ParseState} {e : SyntaxError} {k : TokenKind}
    (h : Program.parse g s = .error (.failed (.grammar e)) s₁)
    (hpending : s.pending = ts ++ s₁.pending) (hspelled : ∀ t ∈ ts, t.lexeme.Spelled)
    (hk : e.start? = some k) (wanted : Token) (hwanted : wanted.kind = k) (offset : UInt32) :
    k.isCalledFor = true ∧ Short ⟨g.limit, .complete offset⟩
      (Program.parse ⟨g.limit, .complete offset⟩ ⟨ts ++ [wanted], [], s.depth⟩) := by
  subst hwanted
  let R : Repair :=
    { left := g, right := ⟨g.limit, .complete offset⟩, shared := ts, ahead := s₁.pending, wanted,
      limit_eq := rfl, complete := ⟨offset, rfl⟩, spelled := hspelled }
  have hs : s.Beside R ts ⟨ts ++ [wanted], [], s.depth⟩ := ⟨rfl, hpending, rfl, fun _ ht => ht⟩
  have hstuck : Stuck R (Program.parse R.left s) := by
    show Stuck R (Program.parse g s)
    rw [h]
    exact .error hk rfl
  have hfound := Program.found_of_stuck hs hstuck
  exact ⟨hfound.isCalledFor, hfound.short⟩

/-- **Expectations are viable.** Where the parse of a source of less than `2 ^ 32` bytes fails with
an error that calls for something, there are texts that meet the expectation, and with any of them
on a new line after the text before the error, the parse succeeds, or it ends too early, at the end,
or it nests too deep. -/
theorem parse_expectation_viable {limit : UInt32} {source : String} {e : SyntaxError}
    {expected : Expectation} (hsize : source.utf8ByteSize < 2 ^ 32)
    (h : parse limit source = .error (.grammar e)) (he : e.expected? = some expected) :
    (∃ w, expected.MetBy w) ∧
      ∃ before after, source = before ++ after ∧ before.utf8ByteSize = e.span.start.toNat ∧
        ∀ w, expected.MetBy w →
          CutShort limit (UInt32.ofNat (before ++ "\n" ++ w).utf8ByteSize)
            (parse limit (before ++ "\n" ++ w)) := by
  rcases parse_fault_or_outcome source with ⟨fault, -, hparse⟩ | ⟨-, hparse⟩
  · rw [hparse] at h
    cases h
  rw [hparse] at h
  obtain ⟨s₁, herror⟩ := Program.eq_error_of_outcome h
  have hknows : (TokenStream.ofSource source).start.Knows
      (· ∈ (TokenStream.ofSource source).tokens) := fun _ ht => ht
  obtain ⟨hreach, hexplains⟩ := Program.parse_accounts.error hknows herror
  have hspelled := TokenStream.ofSource_spelled source
  obtain ⟨hspan, k, hk⟩ := hexplains.expected hspelled he
  have hstart : e.start? = some k := by rw [SyntaxError.start?, he, Option.bind_some, hk]
  obtain ⟨ts, hsuffix⟩ := hreach.suffix
  have htokens : (TokenStream.ofSource source).tokens = ts ++ s₁.pending := hsuffix.symm
  have hshared : ∀ t ∈ ts, t.lexeme.Spelled := fun t ht =>
    hspelled t (htokens ▸ List.mem_append_left _ ht)
  have hfound := Program.found_of_error herror htokens hshared hstart
  constructor
  · exact Expectation.exists_metBy hk (hfound ⟨k, "", ⟨0, 0⟩⟩ rfl 0).1
  · obtain ⟨s', hpasses, hposition⟩ := TokenStream.passes_lookahead limit hsize htokens
    obtain ⟨before, after, hsource, hbytes, hcontinued⟩ := TokenStream.ofSource_continued hpasses
    refine ⟨before, after, hsource, by rw [hbytes, hposition, hspan], fun w hw => ?_⟩
    have hstream := hcontinued k w (hw.spelled hk)
    rw [parse_eq_outcome, hstream, TokenStream.parse_eq fun _ => ⟨_, rfl⟩]
    exact (hfound _ rfl _).2.cutShort

/-- The body of a `do` is left at `c`, where a `while` is called for, and not before an `else` that
might have come. -/
theorem parse_expectation_viable_while :
    parse 8 "do if (a) b; c" = .error (.grammar
      (.unexpectedToken "c" (.token (.keyword .whileWord)) ⟨13, 1⟩)) ∧
      ∃ before after, "do if (a) b; c" = before ++ after ∧ before.utf8ByteSize = 13 ∧
        CutShort 8 (UInt32.ofNat (before ++ "\n" ++ "while").utf8ByteSize)
          (parse 8 (before ++ "\n" ++ "while")) := by
  have hstream : TokenStream.ofSource "do if (a) b; c" =
      ⟨[⟨.keyword .doWord, "do", ⟨0, 2⟩⟩, ⟨.keyword .ifWord, "if", ⟨3, 2⟩⟩,
        ⟨.delimiter .openParen, "(", ⟨6, 1⟩⟩, ⟨.identifier, "a", ⟨7, 1⟩⟩,
        ⟨.delimiter .closeParen, ")", ⟨8, 1⟩⟩, ⟨.identifier, "b", ⟨10, 1⟩⟩,
        ⟨.delimiter .semicolon, ";", ⟨11, 1⟩⟩, ⟨.identifier, "c", ⟨13, 1⟩⟩], .complete 14⟩ := by
    decide +kernel
  have herror : parse 8 "do if (a) b; c" = .error (.grammar
      (.unexpectedToken "c" (.token (.keyword .whileWord)) ⟨13, 1⟩)) := by
    rw [parse_eq_outcome, hstream]
    rfl
  obtain ⟨-, before, after, hsource, hbytes, hviable⟩ :=
    parse_expectation_viable (by decide) herror rfl
  exact ⟨herror, before, after, hsource, hbytes, hviable "while" rfl⟩

end LetterLang

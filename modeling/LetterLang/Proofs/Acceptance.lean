import LetterLang.Proofs.Completeness
import LetterLang.Proofs.Scanning
import LetterLang.Proofs.Soundness

/-!
# The parser accepts its grammar

Soundness and completeness are put together: a source is parsed to a program exactly if its tokens
derive the program within the limit. The budget of calls never decides, since it allows for every
level that the limit allows for.
-/

namespace LetterLang

open Parse

theorem TokenStream.faces_start {limit : UInt32} {source : String}
    (h : (ofSource source).tokens = [] → ∃ offset, (ofSource source).ending = .complete offset) :
    ParseState.Faces ⟨limit, (ofSource source).ending⟩ limit.toNat
      ((ofSource source).tokens.map Token.lexeme) ⟨(ofSource source).tokens, [], 0⟩ where
  lexemes := rfl
  levels := Nat.zero_add _
  spelled := by
    intro t ht
    obtain ⟨u, hu, rfl⟩ := List.mem_map.1 ht
    exact ofSource_spelled source u hu
  complete := fun hnil => h (List.map_eq_nil_iff.1 hnil)

/-- A parse that succeeds has read its source to the end, and what it has read derives its
result. -/
theorem Program.parse_sound {g : Setting} {n : Nat} {i : List Lexeme} {s s' : ParseState}
    {p : Program} (hs : s.Faces g n i) (h : Program.parse g s = .ok p s') :
    g.Complete ∧ DerivesProgram n i p := by
  obtain ⟨body, s₁, h₁, h⟩ := bind_eq_ok.1 h
  obtain ⟨rfl, rfl⟩ := pure_eq_ok.1 h
  obtain ⟨k, hk, hbody, hend⟩ := Grammar.statementsUntil_yields (Grammar.run_sound _) _ hs h₁
  have hend : Lexeme.firstKind k = .endOfInput := hend.elim id id
  cases k with
  | nil => exact ⟨hk.complete rfl, hbody⟩
  | cons t k =>
      obtain ⟨kind, text⟩ := t
      obtain rfl : kind = .endOfInput := hend
      exact (hk.spelled _ List.mem_cons_self).elim

theorem Program.parse_complete {g : Setting} (hg : g.Complete) {i : List Lexeme} {p : Program}
    (h : DerivesProgram g.limit.toNat i p) :
    Accepts g (Program.parse g) g.limit.toNat i p [] := by
  have hcalls : callsPerLevel * g.limit.toNat ≤ callBudget g.limit := by
    rw [callBudget, Nat.mul_add]
    exact Nat.le_add_right _ _
  have hloop := (h.completes hg _ .endOfInput [] hcalls (.inr rfl) rfl).accepts
  rw [List.append_nil] at hloop
  have hbody : Accepts g (Grammar.statementsUntil (Grammar.run g (callBudget g.limit)) .endOfInput)
      g.limit.toNat i p.body.reverse.reverse [] := hloop.bind .pure
  rw [List.reverse_reverse] at hbody
  exact hbody.bind .pure

theorem TokenStream.parse_eq_ok {stream : TokenStream} {limit : UInt32} {p : Program}
    {s' : ParseState} :
    stream.parse limit = .ok p s' ↔
      (stream.tokens = [] → ∃ offset, stream.ending = .complete offset) ∧
        Program.parse ⟨limit, stream.ending⟩ ⟨stream.tokens, [], 0⟩ = .ok p s' := by
  obtain ⟨tokens, ending⟩ := stream
  cases tokens with
  | cons t ts => simp [TokenStream.parse]
  | nil => cases ending <;> simp [TokenStream.parse]

theorem parse_eq_ok {limit : UInt32} {source : String} {p : Program} :
    parse limit source = .ok p ↔ ∃ s', (TokenStream.ofSource source).parse limit = .ok p s' := by
  rw [parse]
  split
  · next h => simp [h]
  · next h => simp [h]
  · next h => simp [h]

/-- A source is parsed to a program exactly if it scans as lexemes that derive the program. -/
theorem parse_eq_ok_iff_scans {limit : UInt32} {source : String} {p : Program} :
    parse limit source = .ok p ↔
      ∃ ls, Scans source.toList ls ∧ DerivesProgram limit.toNat ls p := by
  rw [parse_eq_ok]
  constructor
  · rintro ⟨s', h⟩
    obtain ⟨hnil, h⟩ := TokenStream.parse_eq_ok.1 h
    obtain ⟨⟨offset, hend⟩, hp⟩ := Program.parse_sound (TokenStream.faces_start hnil) h
    have htokens : tokenize source = .ok (TokenStream.ofSource source).tokens :=
      tokenize_eq_ok.2 ⟨offset, hend ▸ rfl⟩
    exact ⟨_, exists_tokenize_iff.1 ⟨_, htokens, rfl⟩, hp⟩
  · rintro ⟨ls, hscans, hp⟩
    obtain ⟨ts, htokens, rfl⟩ := exists_tokenize_iff.2 hscans
    obtain ⟨offset, hstream⟩ := tokenize_eq_ok.1 htokens
    have hend : (TokenStream.ofSource source).ending = .complete offset :=
      congrArg TokenStream.ending hstream
    have hs : ParseState.Faces ⟨limit, _⟩ limit.toNat _ _ :=
      TokenStream.faces_start fun _ => ⟨offset, hend⟩
    rw [hstream] at hs
    obtain ⟨s', h, -⟩ := Program.parse_complete ⟨offset, rfl⟩ hp _ hs
    refine ⟨s', TokenStream.parse_eq_ok.2 ⟨fun _ => ⟨offset, hend⟩, ?_⟩⟩
    rw [hstream]
    exact h

/-- **The parser accepts exactly its grammar.** A source is parsed to a program under a limit on
nesting if and only if it can be scanned and its tokens derive the program within that many
levels. -/
theorem parse_eq_ok_iff_derives (limit : UInt32) (source : String) (p : Program) :
    parse limit source = .ok p ↔
      ∃ ts, tokenize source = .ok ts ∧ DerivesProgram limit.toNat (ts.map Token.lexeme) p := by
  rw [parse_eq_ok_iff_scans]
  constructor
  · rintro ⟨ls, hscans, hp⟩
    obtain ⟨ts, htokens, rfl⟩ := exists_tokenize_iff.2 hscans
    exact ⟨ts, htokens, hp⟩
  · rintro ⟨ts, htokens, hp⟩
    exact ⟨_, exists_tokenize_iff.1 ⟨ts, htokens, rfl⟩, hp⟩

end LetterLang

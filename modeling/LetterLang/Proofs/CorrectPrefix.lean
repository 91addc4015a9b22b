import LetterLang.Proofs.Failure
import LetterLang.Proofs.Truncation

/-!
# Correct prefixes

A syntax error is found at the first token that does not fit. What comes before that token could
have gone on to a program, and the parser shows it: the source cut off before the token, or before
any earlier one, is parsed without an error other than that it ends too early or nests too deep.

Two parses are compared, one of the tokens `ts ++ rest` and one of `ts` alone. As long as the second
has tokens left both see the same, and go the same way. When it has none left, it succeeds at once
or fails for want of a token (`Alike.endsShort`). So either both succeed, or the second is cut short,
or the first fails early, at a token of `ts` (`Alike.cutsOff`).

- `Parse.Short`: the outcomes of a parse that is cut short.
- `Grammar.run_cutsOff`: each production does the same in both parses, up to the cut.
- `parse_truncated`: every source, cut off before its error, is cut short.
-/

namespace LetterLang

open Parse

variable {left right : Setting} {calls : Nat} {ts rest : List Token} {α β : Type}

/-- Whether an error is about a token that does not fit. -/
def SyntaxError.atToken : SyntaxError → Bool
  | .unexpectedToken .. | .invalidTarget .. | .expressionExpected .. | .unexpectedLiteral .. => true
  | .unexpectedEnd .. | .nestingTooDeep .. => false

/-! ## At the end of the input -/

namespace Parse

/-- The outcomes of a parse that is cut short: it succeeds at the end of the input, it misses a
token there, or the nesting is too deep. -/
inductive Short (g : Setting) : EStateM.Result Stop ParseState α → Prop
  | ok {a s} : s.pending = [] → Short g (.ok a s)
  | unexpectedEnd {expected s} :
      Short g (.error (.failed (.grammar (.unexpectedEnd expected g.ending.offset))) s)
  | nestingTooDeep {span s} :
      Short g (.error (.failed (.grammar (.nestingTooDeep g.limit span))) s)
  | outOfCalls {s} : Short g (.error .outOfCalls s)

def EndsShort (g : Setting) (m : Parse α) : Prop :=
  ∀ s, s.pending = [] → Short g (m s)

theorem Short.bind {g : Setting} {m : Parse α} {f : α → Parse β} {s : ParseState}
    (hm : Short g (m s)) (hf : ∀ a, EndsShort g (f a)) : Short g ((m >>= f) s) := by
  cases hrun : m s with
  | ok a s' =>
      rw [hrun] at hm
      cases hm with
      | ok hnil =>
          rw [bind_of_ok hrun]
          exact hf a s' hnil
  | error e s' =>
      rw [hrun] at hm
      rw [bind_of_error hrun]
      cases hm with
      | unexpectedEnd => exact .unexpectedEnd
      | nestingTooDeep => exact .nestingTooDeep
      | outOfCalls => exact .outOfCalls

theorem Short.nested {g : Setting} {m : Parse α} {s : ParseState}
    (hm : Short g (m { s with depth := s.depth + 1 })) : Short g (nested g m s) := by
  by_cases hd : g.limit.toNat ≤ s.depth
  · rw [nested_of_le hd]
    exact .nestingTooDeep
  · rw [nested_of_lt (Nat.lt_of_not_le hd)]
    cases hrun : m { s with depth := s.depth + 1 } with
    | ok a s' =>
        rw [hrun] at hm
        cases hm with
        | ok hnil => exact .ok hnil
    | error e s' =>
        rw [hrun] at hm
        cases hm with
        | unexpectedEnd => exact .unexpectedEnd
        | nestingTooDeep => exact .nestingTooDeep
        | outOfCalls => exact .outOfCalls

end Parse

/-- Two parses with the same number of calls, in which the tokens `ts` meet themselves. -/
def TwoRuns.sharing (left right : Setting) (calls : Nat) (ts : List Token) : TwoRuns where
  left := left
  right := right
  callLeft := Grammar.run left calls
  callRight := Grammar.run right calls
  Meets t u := t = u ∧ t ∈ ts
  lexeme_eq h := congrArg Token.lexeme h.1
  advancesLeft := Grammar.run_advances calls
  advancesRight := Grammar.run_advances calls

theorem Alike.endsShort {h : Nat} {b c : Bool} {m m' : Parse α}
    (hspelled : ∀ t ∈ ts, t.lexeme.Spelled)
    (hcalls : ∀ p, EndsShort right (Grammar.run right calls p))
    (hm : Alike (.sharing left right calls ts) h b c m m') : b = true → EndsShort right m' := by
  induction hm with
  | pure a => exact fun _ s hnil => .ok hnil
  | bind _ _ ihm ihf => exact fun hb s hnil => (ihm hb s hnil).bind fun a => ihf a rfl
  | look _ ih => exact fun _ s hnil => ih s.kind rfl s hnil
  | literal _ ih =>
      intro _ s hnil
      rw [kind_bind, kind_of_nil hnil]
      exact ih _ rfl s hnil
  | eat k _ _ =>
      intro _ s hnil
      rw [bind_of_error (eat_of_nil hnil)]
      exact .unexpectedEnd
  | nested _ ih => exact fun hb s hnil => .nested (ih hb _ hnil)
  | call p _ => exact fun _ => hcalls p
  | loop hend _ hp _ _ =>
      intro _ s hnil
      rw [whileKind_eq hend hp, kind_of_nil hnil, hend]
      exact .ok hnil
  | noExpression =>
      intro _ s hnil
      rw [show Grammar.expressionExpected (TwoRuns.sharing left right calls ts).right s = _ from
        expressionExpected_of_nil hnil]
      exact .unexpectedEnd
  | noOperator hmeets hnot => exact absurd (hspelled _ hmeets.2) hnot
  | noTarget => exact nofun

/-- **At the end of the input** every production is cut short. -/
theorem Grammar.run_endsShort (calls : Nat) (p : Production) :
    EndsShort right (run right calls p) := by
  induction calls generalizing p with
  | zero => exact fun s _ => .outOfCalls
  | succ calls ih =>
      have halike := body_alike (P := .sharing right right calls []) p
      exact halike.endsShort (by simp) ih rfl

/-! ## Up to the cut -/

/-- The failure is no error about a token, or one about a token of `ts`. -/
inductive Parse.Early (ts : List Token) : EStateM.Result Stop ParseState α → Prop
  | error {e s} : (∀ error, e = .failed (.grammar error) → error.atToken = true →
      ∃ t ∈ ts, error.span = t.span) → Early ts (.error e s)

theorem Parse.Early.bind {m : Parse α} {f : α → Parse β} {s : ParseState}
    (h : Early ts (m s)) : Early ts ((m >>= f) s) := by
  cases hrun : m s with
  | ok a s' =>
      rw [hrun] at h
      cases h
  | error e s' =>
      rw [bind_of_error hrun]
      rw [hrun] at h
      cases h with
      | error he => exact .error he

theorem Parse.Early.of_span {m : Parse α} {s s' : ParseState} {error : SyntaxError} {t : Token}
    (h : m s = .error (.failed (.grammar error)) s') (hspan : error.span = t.span) (ht : t ∈ ts) :
    Early ts (m s) := by
  rw [h]
  refine .error fun error' heq _ => ⟨t, ht, ?_⟩
  cases heq
  exact hspan

/-- The second state has the tokens of the first up to `rest`, all of them in `ts`. -/
structure ParseState.CutOff (ts rest : List Token) (s s' : ParseState) : Prop where
  depth : s.depth = s'.depth
  pending : s.pending = s'.pending ++ rest
  mem : ∀ t ∈ s'.pending, t ∈ ts

/-- The next token is the same in both states, if the second has one. -/
theorem ParseState.CutOff.next {s s' : ParseState} {t : Token} {tail : List Token}
    (h : CutOff ts rest s s') (hpending : s'.pending = t :: tail) :
    t ∈ ts ∧ s.pending = t :: (tail ++ rest) := by
  constructor
  · exact h.mem t (hpending ▸ List.mem_cons_self)
  · rw [h.pending, hpending]
    rfl

theorem ParseState.CutOff.kind_eq {s s' : ParseState} (h : CutOff ts rest s s')
    (hne : s'.pending ≠ []) : s.kind = s'.kind := by
  obtain ⟨t, tail, ht⟩ := List.exists_cons_of_ne_nil hne
  rw [ParseState.kind, (h.next ht).2, ParseState.kind, ht]

/-- The next token is consumed in both parses, or the first one fails early. -/
theorem ParseState.CutOff.eat {s s' : ParseState} (h : CutOff ts rest s s')
    (hcomplete : rest ≠ [] ∨ left.Complete → right.Complete) (hne : s'.pending ≠ [])
    (k : TokenKind) :
    (∃ t s₁ s₁', Parse.eat left k s = .ok t s₁ ∧ Parse.eat right k s' = .ok t s₁' ∧
        s₁.CutOff ts rest s₁' ∧ t ∈ ts ∧ t.kind = k) ∨ Early ts (Parse.eat left k s) := by
  obtain ⟨t, tail, hpending'⟩ := List.exists_cons_of_ne_nil hne
  obtain ⟨ht, hpending⟩ := h.next hpending'
  by_cases hk : t.kind = k
  · subst hk
    by_cases hlast : tail ++ rest = [] → left.Complete
    · have hlast' : tail = [] → right.Complete := by
        rintro rfl
        by_cases hrest : rest = []
        · exact hcomplete (.inr (hlast hrest))
        · exact hcomplete (.inl hrest)
      refine .inl ⟨t, _, _, eat_of_cons hpending hlast, eat_of_cons hpending' hlast',
        ⟨h.depth, rfl, ?_⟩, ht, rfl⟩
      intro u hu
      exact h.mem u (hpending' ▸ List.mem_cons_of_mem t hu)
    · rw [Classical.not_imp] at hlast
      obtain ⟨hnil, hnot⟩ := hlast
      obtain ⟨e, he⟩ := (complete_or_fault left).resolve_left hnot
      rw [eat_of_fault (hnil ▸ hpending) he]
      exact .inr (.error fun _ => nofun)
  · exact .inr (.of_span (eat_of_ne hpending hk) rfl ht)

namespace Parse

/-- Both parses succeed alike, or the second is cut short, or the first fails early. -/
def CutOutcome (right : Setting) (ts rest : List Token) (r r' : EStateM.Result Stop ParseState α) :
    Prop :=
  (∃ a s s', r = .ok a s ∧ r' = .ok a s' ∧ s.CutOff ts rest s') ∨ Short right r' ∨ Early ts r

def CutsOff (right : Setting) (ts rest : List Token) (m m' : Parse α) : Prop :=
  ∀ s s', s.CutOff ts rest s' → CutOutcome right ts rest (m s) (m' s')

namespace CutsOff

variable {m m' : Parse α}

theorem pure (a : α) : CutsOff right ts rest (Pure.pure a : Parse α) (Pure.pure a) :=
  fun s s' h => .inl ⟨a, s, s', rfl, rfl, h⟩

theorem bind {f f' : α → Parse β} (hm : CutsOff right ts rest m m')
    (hf : ∀ a, CutsOff right ts rest (f a) (f' a)) (hend : ∀ a, EndsShort right (f' a)) :
    CutsOff right ts rest (m >>= f) (m' >>= f') := by
  intro s s' h
  rcases hm s s' h with ⟨a, s₁, s₁', hok, hok', h₁⟩ | hshort | hearly
  · rw [bind_of_ok hok, bind_of_ok hok']
    exact hf a s₁ s₁' h₁
  · exact .inr (.inl (hshort.bind hend))
  · exact .inr (.inr hearly.bind)

theorem nested (hlimit : left.limit = right.limit) (hm : CutsOff right ts rest m m') :
    CutsOff right ts rest (Parse.nested left m) (Parse.nested right m') := by
  intro s s' h
  by_cases hd : right.limit.toNat ≤ s'.depth
  · rw [nested_of_le hd]
    exact .inr (.inl .nestingTooDeep)
  · have hd' : s'.depth < right.limit.toNat := Nat.lt_of_not_le hd
    have hd : s.depth < left.limit.toNat := by rwa [hlimit, h.depth]
    have h : ({ s with depth := s.depth + 1 } : ParseState).CutOff ts rest
        { s' with depth := s'.depth + 1 } := ⟨congrArg (· + 1) h.depth, h.pending, h.mem⟩
    rcases hm _ _ h with ⟨a, s₁, s₁', hok, hok', h₁⟩ | hshort | hearly
    · refine .inl ⟨a, leave s₁, leave s₁', ?_, ?_, ?_⟩
      · rw [nested_of_lt hd, hok]
      · rw [nested_of_lt hd', hok']
      · exact ⟨congrArg (· - 1) h₁.depth, h₁.pending, h₁.mem⟩
    · exact .inr (.inl (.nested hshort))
    · refine .inr (.inr ?_)
      rw [nested_of_lt hd]
      cases hrun : m { s with depth := s.depth + 1 } with
      | ok a s₁ =>
          rw [hrun] at hearly
          cases hearly
      | error e s₁ =>
          rw [hrun] at hearly
          cases hearly with
          | error he => exact .error he

/-- Rounds are done in both loops until one of them is cut short or fails. -/
theorem whileKind {more : TokenKind → Bool} {f f' : α → TokenKind → Parse α} {a : α}
    (hend : more .endOfInput = false) (hp : Progress more fun a => kind >>= f a)
    (hp' : Progress more fun a => kind >>= f' a)
    (hf : ∀ a k, more k = true → CutsOff right ts rest (f a k) (f' a k)) :
    CutsOff right ts rest (Parse.whileKind more (fun a => kind >>= f a) a)
      (Parse.whileKind more (fun a => kind >>= f' a) a) := by
  intro s s' h
  have hstop : ∀ a, EndsShort right (Parse.whileKind more (fun a => kind >>= f' a) a) := by
    intro a s hnil
    rw [whileKind_eq hend hp', kind_of_nil hnil, hend]
    exact .ok hnil
  induction hn : s'.pending.length using Nat.strongRecOn generalizing a s s' with
  | ind n ih =>
      by_cases hnil : s'.pending = []
      · exact .inr (.inl (hstop a s' hnil))
      · rw [whileKind_eq hend hp, whileKind_eq hend hp', h.kind_eq hnil]
        by_cases hmore : more s'.kind = true
        · rw [if_pos hmore, if_pos hmore]
          have hfirst : (kind >>= f a) s = f a s'.kind s := by rw [kind_bind, h.kind_eq hnil]
          rcases hf a s'.kind hmore s s' h with ⟨b, s₁, s₁', hok, hok', h₁⟩ | hshort | hearly
          · have hok' : (kind >>= f' a) s' = .ok b s₁' := hok'
            have hlt := hp' a s' b s₁' hmore hok'
            rw [bind_of_ok (hfirst.trans hok), bind_of_ok hok']
            exact ih _ (hn ▸ hlt) s₁ s₁' h₁ rfl
          · have hshort : Short right ((kind >>= f' a) s') := hshort
            exact .inr (.inl (hshort.bind hstop))
          · rw [← hfirst] at hearly
            exact .inr (.inr hearly.bind)
        · rw [if_neg hmore, if_neg hmore]
          exact .inl ⟨a, s, s', rfl, rfl, h⟩

theorem literal (hcomplete : rest ≠ [] ∨ left.Complete → right.Complete) {s s' : ParseState}
    (h : s.CutOff ts rest s') (hne : s'.pending ≠ []) :
    CutOutcome right ts rest (Grammar.literal left s) (Grammar.literal right s') := by
  obtain ⟨t, tail, hpending'⟩ := List.exists_cons_of_ne_nil hne
  obtain ⟨ht, hpending⟩ := h.next hpending'
  have hnext : s.lookahead left = t := by rw [ParseState.lookahead, hpending]; rfl
  have hnext' : s'.lookahead right = t := by rw [ParseState.lookahead, hpending']; rfl
  cases hvalue : Grammar.literal? t with
  | none =>
      have hfail : Grammar.literal left s = _ := literal_of_none (by rw [hnext, hvalue])
      exact .inr (.inr (.of_span hfail (by rw [hnext]; rfl) ht))
  | some value =>
      have hsome : Grammar.literal left s = _ := literal_of_some (by rw [hnext, hvalue])
      have hsome' : Grammar.literal right s' = _ := literal_of_some (by rw [hnext', hvalue])
      rw [hnext] at hsome
      rw [hnext'] at hsome'
      rw [hsome, hsome']
      rcases h.eat hcomplete hne t.kind with ⟨t, s₁, s₁', hok, hok', h₁, -⟩ | hearly
      · rw [bind_of_ok hok, bind_of_ok hok']
        exact .inl ⟨value, s₁, s₁', rfl, rfl, h₁⟩
      · exact .inr (.inr hearly.bind)

end CutsOff

end Parse

/-- **Up to the cut both parses do the same.** -/
theorem Alike.cutsOff {h : Nat} {b c : Bool} {m m' : Parse α}
    (hspelled : ∀ t ∈ ts, t.lexeme.Spelled) (hlimit : left.limit = right.limit)
    (hcomplete : rest ≠ [] ∨ left.Complete → right.Complete)
    (hcalls : ∀ p, CutsOff right ts rest (Grammar.run left calls p) (Grammar.run right calls p))
    (hm : Alike (.sharing left right calls ts) h b c m m') : CutsOff right ts rest m m' := by
  have hshort : ∀ p, EndsShort right (Grammar.run right calls p) := Grammar.run_endsShort calls
  induction hm with
  | pure a => exact .pure a
  | bind _ hf ihm ihf => exact ihm.bind ihf fun a => (hf a).endsShort hspelled hshort rfl
  | look hf ih =>
      intro s s' h
      by_cases hnil : s'.pending = []
      · exact .inr (.inl ((hf s'.kind).endsShort hspelled hshort rfl s' hnil))
      · rw [kind_bind, kind_bind, h.kind_eq hnil]
        exact ih s'.kind s s' h
  | literal hf ih =>
      intro s s' h
      by_cases hnil : s'.pending = []
      · rw [kind_bind (s := s'), kind_of_nil hnil]
        exact .inr (.inl ((hf _).endsShort hspelled hshort rfl s' hnil))
      · rw [kind_bind, kind_bind, h.kind_eq hnil]
        split
        · exact CutsOff.literal hcomplete h hnil
        · exact ih s'.kind s s' h
  | @eat _ _ _ _ f f' k hf ih =>
      intro s s' h
      show CutOutcome right ts rest ((Parse.eat left k >>= f) s) ((Parse.eat right k >>= f') s')
      by_cases hnil : s'.pending = []
      · rw [bind_of_error (eat_of_nil hnil)]
        exact .inr (.inl .unexpectedEnd)
      · rcases h.eat hcomplete hnil k with ⟨t, s₁, s₁', hok, hok', h₁, ht, hkind⟩ | hearly
        · rw [bind_of_ok hok, bind_of_ok hok']
          exact ih t t ⟨rfl, ht⟩ hkind s₁ s₁' h₁
        · exact .inr (.inr hearly.bind)
  | nested _ ih => exact .nested hlimit ih
  | call p _ => exact hcalls p
  | loop hend hp hp' _ ih => exact .whileKind hend hp hp' ih
  | noExpression =>
      intro s s' h
      cases hpending' : s'.pending with
      | nil =>
          refine .inr (.inl ?_)
          rw [show Grammar.expressionExpected (TwoRuns.sharing left right calls ts).right s' = _ from
            expressionExpected_of_nil hpending']
          exact .unexpectedEnd
      | cons t tail =>
          obtain ⟨ht, hpending⟩ := h.next hpending'
          exact .inr (.inr (.of_span (expressionExpected_of_cons hpending) rfl ht))
  | noOperator hmeets hnot => exact absurd (hspelled _ hmeets.2) hnot
  | noTarget hmeets _ => exact fun s s' h => .inr (.inr (.of_span rfl rfl hmeets.2))

theorem Grammar.run_cutsOff (hspelled : ∀ t ∈ ts, t.lexeme.Spelled)
    (hlimit : left.limit = right.limit) (hcomplete : rest ≠ [] ∨ left.Complete → right.Complete)
    (calls : Nat) (p : Production) :
    CutsOff right ts rest (run left calls p) (run right calls p) := by
  induction calls generalizing p with
  | zero => exact fun s s' _ => .inr (.inl .outOfCalls)
  | succ calls ih =>
      have halike := body_alike (P := .sharing left right calls ts) p
      exact halike.cutsOff hspelled hlimit hcomplete ih

/-- **Up to the cut two parses do the same.** -/
theorem Program.parse_cutsOff (hspelled : ∀ t ∈ ts, t.lexeme.Spelled)
    (hlimit : left.limit = right.limit)
    (hcomplete : rest ≠ [] ∨ left.Complete → right.Complete) :
    CutsOff right ts rest (Program.parse left) (Program.parse right) := by
  have hcalls := Grammar.run_cutsOff hspelled hlimit hcomplete (callBudget left.limit)
  have halike := Grammar.statementsUntil_alike
    (P := .sharing left right (callBudget left.limit) ts) (h := 2) (b := true) .endOfInput
    (by decide)
  have hstatements := halike.cutsOff hspelled hlimit hcomplete hcalls
  unfold Program.parse
  rw [← hlimit]
  exact hstatements.bind (fun _ => .pure _) fun _ _ hnil => .ok hnil

/-! ## Sources -/

variable {limit : UInt32} {source : String}

def TokenStream.setting (stream : TokenStream) (limit : UInt32) : Setting :=
  ⟨limit, stream.ending⟩

def TokenStream.start (stream : TokenStream) : ParseState :=
  ⟨stream.tokens, [], 0⟩

/-- A stream is parsed by the productions, unless it fails before its first token. -/
theorem TokenStream.parse_eq {stream : TokenStream}
    (h : stream.tokens = [] → ∃ offset, stream.ending = .complete offset) :
    stream.parse limit = Program.parse (stream.setting limit) stream.start := by
  obtain ⟨tokens, ending⟩ := stream
  cases tokens with
  | cons t ts => cases ending <;> rfl
  | nil =>
      obtain ⟨offset, rfl⟩ := h rfl
      rfl

/-- How the outcome of the productions becomes the outcome of a parse. -/
def Parse.outcome (g : Setting) :
    EStateM.Result Stop ParseState Program → Except ParseError Program
  | .ok program _ => .ok program
  | .error (.failed e) _ => .error e
  | .error .outOfCalls s => .error (.grammar (.nestingTooDeep g.limit (s.lookahead g).span))

theorem parse_eq_outcome (limit : UInt32) (source : String) :
    parse limit source = outcome ((TokenStream.ofSource source).setting limit)
      ((TokenStream.ofSource source).parse limit) := by
  unfold parse
  dsimp only
  cases (TokenStream.ofSource source).parse limit with
  | ok p s => rfl
  | error e s => cases e <;> rfl

theorem Program.eq_error_of_outcome {g : Setting} {s : ParseState} {e : ParseError}
    (h : outcome g (Program.parse g s) = .error e) :
    ∃ s', Program.parse g s = .error (.failed e) s' := by
  cases hrun : Program.parse g s with
  | ok p s' =>
      rw [hrun] at h
      cases h
  | error stop s' =>
      cases stop with
      | outOfCalls => exact absurd hrun (Program.parse_ne_outOfCalls s')
      | failed error =>
          rw [hrun] at h
          cases h
          exact ⟨s', rfl⟩

/-- The parse of a source fails before its first token, or it is the work of the productions. -/
theorem parse_fault_or_outcome (source : String) :
    (∃ e, TokenStream.ofSource source = ⟨[], .fault e⟩ ∧
      ∀ limit, parse limit source = .error (.scan e)) ∨
    ((TokenStream.ofSource source).tokens = [] →
        ∃ offset, (TokenStream.ofSource source).ending = .complete offset) ∧
      ∀ limit, parse limit source = outcome ((TokenStream.ofSource source).setting limit)
        (Program.parse ((TokenStream.ofSource source).setting limit)
          (TokenStream.ofSource source).start) := by
  by_cases h : (TokenStream.ofSource source).tokens = [] →
      ∃ offset, (TokenStream.ofSource source).ending = .complete offset
  · refine .inr ⟨h, fun limit => ?_⟩
    rw [parse_eq_outcome, TokenStream.parse_eq h]
  · rw [Classical.not_imp] at h
    obtain ⟨hnil, hnot⟩ := h
    cases hstream : TokenStream.ofSource source with
    | mk tokens ending =>
        rw [hstream] at hnil hnot
        obtain rfl : tokens = [] := hnil
        cases ending with
        | complete offset => exact absurd ⟨offset, rfl⟩ hnot
        | fault e =>
            refine .inl ⟨e, rfl, fun limit => ?_⟩
            rw [parse_eq_outcome, hstream]
            rfl

/-- The error of a parse is a fault before the first token, or the productions make it in a state
that explains it. -/
theorem explains_of_parse {limit : UInt32} {source : String} {e : ParseError}
    (h : parse limit source = .error e) :
    (∃ fault, TokenStream.ofSource source = ⟨[], .fault fault⟩ ∧ e = .scan fault) ∨
    ((TokenStream.ofSource source).tokens = [] →
        ∃ offset, (TokenStream.ofSource source).ending = .complete offset) ∧
      ∃ s, Program.parse ((TokenStream.ofSource source).setting limit)
          (TokenStream.ofSource source).start = .error (.failed e) s ∧
        (TokenStream.ofSource source).start.Reaches
          ((TokenStream.ofSource source).setting limit) false s ∧
        Explains ((TokenStream.ofSource source).setting limit)
          (· ∈ (TokenStream.ofSource source).tokens) s (.failed e) := by
  rcases parse_fault_or_outcome source with ⟨fault, hstream, hparse⟩ | ⟨hstart, hparse⟩
  · cases (hparse limit).symm.trans h
    exact .inl ⟨fault, hstream, rfl⟩
  · rw [hparse] at h
    obtain ⟨s, herror⟩ := Program.eq_error_of_outcome h
    have hknows : (TokenStream.ofSource source).start.Knows
        (· ∈ (TokenStream.ofSource source).tokens) := fun _ ht => ht
    exact .inr ⟨hstart, s, herror, Program.parse_accounts.error hknows herror⟩

/-- The outcomes of the parse of a source that ends at an offset, too early or not. -/
def CutShort (limit offset : UInt32) (r : Except ParseError Program) : Prop :=
  (∃ p, r = .ok p) ∨ (∃ expected, r = .error (.grammar (.unexpectedEnd expected offset))) ∨
    ∃ span, r = .error (.grammar (.nestingTooDeep limit span))

theorem Parse.Short.cutShort {g : Setting} {r : EStateM.Result Stop ParseState Program}
    (h : Short g r) : CutShort g.limit g.ending.offset (outcome g r) := by
  cases h with
  | ok _ => exact .inl ⟨_, rfl⟩
  | unexpectedEnd => exact .inr (.inl ⟨_, rfl⟩)
  | nestingTooDeep => exact .inr (.inr ⟨_, rfl⟩)
  | outOfCalls => exact .inr (.inr ⟨_, rfl⟩)

/-- The offset up to which a parse finds nothing wrong with its source: all of it, or what comes
before the token that does not fit. -/
def cutOff? (source : String) : Except ParseError Program → Option Nat
  | .ok _ => some source.utf8ByteSize
  | .error (.grammar e) => if e.atToken then some e.span.start.toNat else none
  | .error (.scan _) => none

theorem Parse.Early.cutOff_eq {g : Setting} {r : EStateM.Result Stop ParseState Program} {c : Nat}
    (h : Early ts r) (hc : cutOff? source (outcome g r) = some c) :
    ∃ t ∈ ts, c = t.span.start.toNat := by
  cases h with
  | @error e s he =>
      cases e with
      | outOfCalls => cases hc
      | failed error =>
          cases error with
          | scan => cases hc
          | grammar error =>
              simp only [outcome, cutOff?, Option.ite_none_right_eq_some, Option.some.injEq] at hc
              obtain ⟨t, ht, hspan⟩ := he error rfl hc.1
              exact ⟨t, ht, by rw [← hspan, hc.2]⟩

/-- Where a parse has a cut-off, its stream does not fail before the first token. -/
theorem parse_eq_of_cutOff {c : Nat} (hc : cutOff? source (parse limit source) = some c) :
    parse limit source = outcome ((TokenStream.ofSource source).setting limit)
      (Program.parse ((TokenStream.ofSource source).setting limit)
        (TokenStream.ofSource source).start) := by
  rcases parse_fault_or_outcome source with ⟨e, -, hparse⟩ | ⟨-, hparse⟩
  · rw [hparse limit] at hc
    cases hc
  · exact hparse limit

/-- **Errors point at tokens.** A cut-off that is not the end of the source is the start of one of
its tokens. -/
theorem exists_token_of_cutOff {e : ParseError} {c : Nat} (h : parse limit source = .error e)
    (hc : cutOff? source (parse limit source) = some c) :
    ∃ t ∈ (TokenStream.ofSource source).tokens, c = t.span.start.toNat := by
  generalize hg : (TokenStream.ofSource source).setting limit = g
  have hparse := parse_eq_of_cutOff hc
  rw [hg] at hparse
  rw [hparse] at h hc
  have hsame : CutsOff g (TokenStream.ofSource source).tokens [] (Program.parse g)
      (Program.parse g) :=
    Program.parse_cutsOff (TokenStream.ofSource_spelled source) rfl fun h =>
      h.resolve_left (absurd rfl)
  have hstart : (TokenStream.ofSource source).start.CutOff (TokenStream.ofSource source).tokens []
      (TokenStream.ofSource source).start := ⟨rfl, (List.append_nil _).symm, fun _ ht => ht⟩
  rcases hsame _ _ hstart with ⟨p, s, s', hok, -⟩ | hshort | hearly
  · rw [hok] at h
    cases h
  · rcases hshort.cutShort with ⟨p, hok⟩ | ⟨expected, hend⟩ | ⟨span, hdeep⟩
    · rw [hok] at h
      cases h
    · rw [hend] at hc
      cases hc
    · rw [hdeep] at hc
      cases hc
  · exact hearly.cutOff_eq hc

/-- The parse of a source that is cut off at a cursor before its cut-off. -/
theorem parse_cutShort {c : Nat} {s' : Scanner} (hsize : source.utf8ByteSize < 2 ^ 32)
    (hc : cutOff? source (parse limit source) = some c) (hle : s'.position ≤ c)
    (htokens : (TokenStream.ofSource source).tokens = ts ++ rest)
    (hpasses : Scanner.Passes (.ofSource source) ts s') :
    ∃ before after, source = before ++ after ∧ before.utf8ByteSize = s'.position ∧
      CutShort limit (UInt32.ofNat s'.position) (parse limit before) := by
  obtain ⟨before, after, hsource, hbytes, hstream⟩ := TokenStream.ofSource_truncated hpasses
  refine ⟨before, after, hsource, hbytes, ?_⟩
  have hspelled : ∀ t ∈ ts, t.lexeme.Spelled := fun t ht =>
    TokenStream.ofSource_spelled source t (htokens ▸ List.mem_append_left rest ht)
  have hcut : CutsOff ⟨limit, .complete (UInt32.ofNat s'.position)⟩ ts rest
      (Program.parse ((TokenStream.ofSource source).setting limit))
      (Program.parse ⟨limit, .complete (UInt32.ofNat s'.position)⟩) :=
    Program.parse_cutsOff hspelled rfl fun _ => ⟨_, rfl⟩
  have hstart : (TokenStream.ofSource source).start.CutOff ts rest ⟨ts, [], 0⟩ :=
    ⟨rfl, htokens, fun _ ht => ht⟩
  have hbefore : parse limit before =
      outcome ⟨limit, .complete (UInt32.ofNat s'.position)⟩
        (Program.parse ⟨limit, .complete (UInt32.ofNat s'.position)⟩ ⟨ts, [], 0⟩) := by
    rw [parse_eq_outcome, hstream, TokenStream.parse_eq fun _ => ⟨_, rfl⟩]
    rfl
  rw [hbefore]
  rcases hcut _ _ hstart with ⟨p, s, s'', -, hok, -⟩ | hshort | hearly
  · rw [hok]
    exact .inl ⟨p, rfl⟩
  · exact hshort.cutShort
  · -- An early failure would put the cut-off before the cut.
    rw [parse_eq_of_cutOff hc] at hc
    obtain ⟨t, ht, rfl⟩ := hearly.cutOff_eq hc
    have hlt := hpasses.start_lt (Scanner.bytes_ofSource source ▸ hsize) t ht
    exact absurd hle (Nat.not_le.2 hlt)

/-- **The correct-prefix property.** A source of less than `2 ^ 32` bytes is cut off at the start or
at the end of one of its tokens, or at its cut-off, and not behind the cut-off. What is left of it
is parsed, or it ends too early, at its end, or it nests too deep: there is no other error. -/
theorem parse_truncated {limit : UInt32} {source : String} {b c : Nat}
    (hsize : source.utf8ByteSize < 2 ^ 32) (hc : cutOff? source (parse limit source) = some c)
    (hle : b ≤ c) (hb : b = c ∨ ∃ t ∈ (TokenStream.ofSource source).tokens,
      b = t.span.start.toNat ∨ b = t.span.stop) :
    ∃ before after, source = before ++ after ∧ before.utf8ByteSize = b ∧
      CutShort limit (UInt32.ofNat b) (parse limit before) := by
  have hcut : (∃ t ∈ (TokenStream.ofSource source).tokens,
      b = t.span.start.toNat ∨ b = t.span.stop) →
      ∃ before after, source = before ++ after ∧ before.utf8ByteSize = b ∧
        CutShort limit (UInt32.ofNat b) (parse limit before) := by
    rintro ⟨t, ht, hb⟩
    obtain ⟨ts, rest, s', htokens, hpasses, rfl⟩ := TokenStream.exists_passes hsize ht hb
    exact parse_cutShort hsize hc hle htokens hpasses
  rcases hb with rfl | hb
  · cases hparse : parse limit source with
    | ok p =>
        rw [hparse] at hc
        obtain rfl : source.utf8ByteSize = b := Option.some.inj hc
        exact ⟨source, "", String.append_empty.symm, rfl, .inl ⟨p, hparse⟩⟩
    | error e =>
        obtain ⟨t, ht, hstart⟩ := exists_token_of_cutOff hparse hc
        exact hcut ⟨t, ht, .inl hstart⟩
  · exact hcut hb

/-- The semicolon of `a=(b+;` does not fit, and the text before it ends too early. -/
theorem parse_truncated_operand :
    cutOff? "a=(b+;" (parse 8 "a=(b+;") = some 5 ∧
      ∃ before after, "a=(b+;" = before ++ after ∧ before.utf8ByteSize = 5 ∧
        CutShort 8 5 (parse 8 before) := by
  have hc : cutOff? "a=(b+;" (parse 8 "a=(b+;") = some 5 := by decide +kernel
  exact ⟨hc, parse_truncated (by decide) hc (Nat.le_refl 5) (.inl rfl)⟩

end LetterLang

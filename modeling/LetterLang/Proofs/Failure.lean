import LetterLang.Proofs.Budget

/-!
# How a step ends

`Parse.Advances` speaks of a step that gives a result. Here the step may also stop. Either way it has
only moved tokens from those pending to those consumed, and it is back at its level of nesting; and
if it stops, its error says something about the state in which it stops.

- `ParseState.Reaches`: what a step does to its state, whatever its outcome. The end of the input is
  reached only if the source can be scanned up to there.
- `Parse.Explains`: what an error says of the state in which a parse stops. An error about a token
  is about the next one; only the operator of an assignment has been consumed before its target is
  refused.
- `Grammar.run_accounts`: every production ends like that.
-/

namespace LetterLang

open Parse

variable {g : Setting} {known : Token → Prop} {s s' : ParseState} {α β : Type}

/-! ## The state in which a step ends -/

namespace ParseState

/-- Some tokens have been consumed, and the end of the input is reached only if it is the end of
the source. -/
structure Reaches (g : Setting) (consumes : Bool) (s s' : ParseState) : Prop where
  leads : s.Leads consumes s'
  complete : (s.pending = [] → g.Complete) → s'.pending = [] → g.Complete

def Knows (known : Token → Prop) (s : ParseState) : Prop :=
  ∀ t ∈ s.pending, known t

namespace Reaches

variable {c c' : Bool} {s₁ : ParseState}

theorem refl (s : ParseState) : Reaches g false s s :=
  ⟨.refl s, id⟩

theorem trans (h : Reaches g c s s₁) (h' : Reaches g c' s₁ s') : Reaches g c s s' :=
  ⟨h.leads.trans h'.leads, fun hs => h'.complete (h.complete hs)⟩

theorem weaken (h : Reaches g c s s') (hc : c' = true → c = true) : Reaches g c' s s' :=
  ⟨h.leads.weaken hc, h.complete⟩

theorem knows (h : Reaches g c s s') (hs : s.Knows known) : s'.Knows known := by
  obtain ⟨used, hpending, -⟩ := h.leads.tokens
  intro t ht
  exact hs t (hpending ▸ List.mem_append_right used ht)

theorem suffix (h : Reaches g c s s') : s'.pending <:+ s.pending := by
  obtain ⟨used, hpending, -⟩ := h.leads.tokens
  exact ⟨used, hpending.symm⟩

theorem leave (h : Reaches g c { s with depth := s.depth + 1 } s') :
    Reaches g c s (Parse.leave s') := by
  obtain ⟨⟨hdepth, htokens⟩, hcomplete⟩ := h
  refine ⟨⟨?_, htokens⟩, hcomplete⟩
  rw [Parse.leave, hdepth]
  exact Nat.add_sub_cancel _ _

end Reaches

end ParseState

/-! ## What an error says -/

/-- The kind of a token that meets an expectation: any name for an expression. No place in the
grammar calls for one of a family of operators. -/
def Expectation.start? : Expectation → Option TokenKind
  | .token kind => some kind
  | .expression => some .identifier
  | .assignmentOperator | .logicalOperator | .binaryOperator | .unaryOperator => none

namespace Parse

/-- A token of the kind that is called for is consumed, unless the place behind it cannot be
scanned. -/
theorem eat_or_fault {t : Token} {rest : List Token} (h : s.pending = t :: rest) :
    (rest = [] → g.Complete) ∧
        eat g t.kind s = .ok t { s with pending := rest, consumed := t :: s.consumed } ∨
      ∃ e, g.ending = .fault e ∧ eat g t.kind s = .error (.failed (.scan e)) s := by
  by_cases hrest : rest = [] → g.Complete
  · exact .inl ⟨hrest, eat_of_cons h hrest⟩
  · rw [Classical.not_imp] at hrest
    obtain ⟨rfl, hnot⟩ := hrest
    obtain ⟨e, he⟩ := (complete_or_fault g).resolve_left hnot
    exact .inr ⟨e, he, eat_of_fault h he⟩

/-- What an error says of the state in which a parse stops, where the tokens of the source are
`known`. -/
inductive Explains (g : Setting) (known : Token → Prop) (s : ParseState) : Stop → Prop
  | outOfCalls : Explains g known s .outOfCalls
  /-- The lookahead would move onto a place that cannot be scanned. -/
  | fault {e} : g.ending = .fault e → Explains g known s (.failed (.scan e))
  | unexpectedToken {t rest k} : s.pending = t :: rest →
      Explains g known s (.failed (.grammar (.unexpectedToken t.text (.token k) t.span)))
  | expressionExpected {t rest} : s.pending = t :: rest →
      Explains g known s (.failed (.grammar (.expressionExpected t.text t.span)))
  | unexpectedLiteral {t rest} : s.pending = t :: rest →
      Explains g known s (.failed (.grammar (.unexpectedLiteral t.text t.span)))
  | unexpectedEnd {expected k} : s.pending = [] → expected.start? = some k →
      Explains g known s (.failed (.grammar (.unexpectedEnd expected g.ending.offset)))
  | nestingTooDeep :
      Explains g known s (.failed (.grammar (.nestingTooDeep g.limit (s.lookahead g).span)))
  | invalidTarget {t kind} : known t → t.kind.isAssignment = true →
      Explains g known s (.failed (.grammar (.invalidTarget kind t.span)))
  /-- The text of an operator token is no operator, which no token of a source is. -/
  | unknownOperator {t expected} : known t → ¬ t.lexeme.Spelled →
      Explains g known s (.failed (.grammar (.unexpectedToken t.text expected t.span)))

theorem Explains.leave {e : Stop} (h : Explains g known s e) : Explains g known (leave s) e := by
  cases h with
  | outOfCalls => exact .outOfCalls
  | fault he => exact .fault he
  | unexpectedToken hp => exact .unexpectedToken hp
  | expressionExpected hp => exact .expressionExpected hp
  | unexpectedLiteral hp => exact .unexpectedLiteral hp
  | unexpectedEnd hp hk => exact .unexpectedEnd hp hk
  | nestingTooDeep => exact .nestingTooDeep
  | invalidTarget ht hk => exact .invalidTarget ht hk
  | unknownOperator ht hnot => exact .unknownOperator ht hnot

/-- What a step has done when it ends with this outcome. -/
def EndsFrom (g : Setting) (known : Token → Prop) (consumes : Bool) (s : ParseState) :
    EStateM.Result Stop ParseState α → Prop
  | .ok _ s' => s.Reaches g consumes s'
  | .error e s' => s.Reaches g false s' ∧ Explains g known s' e

def endState : EStateM.Result Stop ParseState α → ParseState
  | .ok _ s | .error _ s => s

theorem EndsFrom.reaches {c : Bool} {r : EStateM.Result Stop ParseState α}
    (h : EndsFrom g known c s r) : s.Reaches g false (endState r) := by
  cases r with
  | ok a s' => exact ParseState.Reaches.weaken h nofun
  | error e s' => exact h.1

def Accounts (g : Setting) (known : Token → Prop) (consumes : Bool) (m : Parse α) : Prop :=
  ∀ s, s.Knows known → EndsFrom g known consumes s (m s)

namespace Accounts

variable {c c' : Bool} {m : Parse α}

theorem ok {a : α} (hm : Accounts g known c m) (hs : s.Knows known) (h : m s = .ok a s') :
    s.Reaches g c s' := by
  have hend := hm s hs
  rwa [h] at hend

theorem error {e : Stop} (hm : Accounts g known c m) (hs : s.Knows known)
    (h : m s = .error e s') : s.Reaches g false s' ∧ Explains g known s' e := by
  have hend := hm s hs
  rwa [h] at hend

theorem weaken (hm : Accounts g known c m) (hc : c' = true → c = true) :
    Accounts g known c' m := by
  intro s hs
  cases h : m s with
  | ok a s' => exact (hm.ok hs h).weaken hc
  | error e s' => exact hm.error hs h

theorem pure (a : α) : Accounts g known false (Pure.pure a : Parse α) :=
  fun s _ => .refl s

theorem fail {error : SyntaxError}
    (h : ∀ s : ParseState, s.Knows known → Explains g known s (.failed (.grammar error))) :
    Accounts g known c (Parse.fail error : Parse α) :=
  fun s hs => ⟨.refl s, h s hs⟩

/-- The rest of a composed step may rely on the result that the first part has given. -/
theorem bind_of {f : α → Parse β} (hm : Accounts g known c m)
    (hf : ∀ s a s', s.Knows known → m s = .ok a s' → EndsFrom g known c' s' (f a s')) :
    Accounts g known c (m >>= f) := by
  intro s hs
  cases h : m s with
  | error e s' =>
      rw [bind_of_error h]
      exact hm.error hs h
  | ok a s₁ =>
      rw [bind_of_ok h]
      have hfirst := hm.ok hs h
      have hrest := hf s a s₁ hs h
      cases h' : f a s₁ with
      | ok b s' =>
          rw [h'] at hrest
          exact hfirst.trans hrest
      | error e s' =>
          rw [h'] at hrest
          have hfirst : s.Reaches g false s₁ := hfirst.weaken nofun
          exact ⟨hfirst.trans hrest.1, hrest.2⟩

theorem bind {f : α → Parse β} (hm : Accounts g known c m)
    (hf : ∀ a, Accounts g known c' (f a)) : Accounts g known c (m >>= f) :=
  hm.bind_of fun _ a s' hs h => hf a s' ((hm.ok hs h).knows hs)

theorem eat (k : TokenKind) : Accounts g known true (Parse.eat g k) := by
  intro s hs
  cases hp : s.pending with
  | nil =>
      rw [eat_of_nil hp]
      exact ⟨.refl s, .unexpectedEnd hp rfl⟩
  | cons t rest =>
      by_cases hk : t.kind = k
      · subst hk
        rcases eat_or_fault (g := g) hp with ⟨hrest, hok⟩ | ⟨e, he, herror⟩
        · rw [hok]
          refine ⟨⟨rfl, [t], hp, rfl, fun _ => List.cons_ne_nil _ _⟩, ?_⟩
          exact fun _ => hrest
        · rw [herror]
          exact ⟨.refl s, .fault he⟩
      · rw [eat_of_ne hp hk]
        exact ⟨.refl s, .unexpectedToken hp⟩

theorem nested (hm : Accounts g known c m) : Accounts g known c (Parse.nested g m) := by
  intro s hs
  by_cases hd : g.limit.toNat ≤ s.depth
  · rw [nested_of_le hd]
    exact ⟨.refl s, .nestingTooDeep⟩
  · rw [nested_of_lt (Nat.lt_of_not_le hd)]
    have hs : ({ s with depth := s.depth + 1 } : ParseState).Knows known := hs
    cases h : m { s with depth := s.depth + 1 } with
    | ok a s' => exact (hm.ok hs h).leave
    | error e s' =>
        obtain ⟨hreach, hexplains⟩ := hm.error hs h
        exact ⟨hreach.leave, hexplains.leave⟩

theorem whileKind {more : TokenKind → Bool} {f : α → TokenKind → Parse α}
    (hf : ∀ a k, more k = true → Accounts g known c (f a k)) (a : α) :
    Accounts g known false (Parse.whileKind more (fun a => kind >>= f a) a) := by
  have rounds : ∀ (fuel : List Token) (a : α),
      Accounts g known false (repeatWhile more (fun a => kind >>= f a) fuel a) := by
    intro fuel
    induction fuel with
    | nil => exact pure
    | cons t fuel ih =>
        intro a s hs
        rw [repeatWhile_cons]
        split
        · next hm =>
          have hround : Accounts g known false (f a s.kind) := (hf a s.kind hm).weaken nofun
          exact hround.bind ih s hs
        · exact pure a s hs
  exact fun s => rounds s.pending a s

end Accounts

theorem EndsFrom.literal {c : Bool} (hs : s.Knows known) (hk : s.kind.isLiteral = true) :
    EndsFrom g known c s (Grammar.literal g s) := by
  cases hp : s.pending with
  | nil =>
      rw [kind_of_nil hp] at hk
      cases hk
  | cons t rest =>
      have hnext : s.lookahead g = t := by rw [ParseState.lookahead, hp]; rfl
      cases hvalue : Grammar.literal? (s.lookahead g) with
      | none =>
          rw [literal_of_none hvalue, hnext]
          exact ⟨.refl s, .unexpectedLiteral hp⟩
      | some value =>
          rw [literal_of_some hvalue]
          have heat : Accounts g known true (eat g (s.lookahead g).kind >>= fun _ => pure value) :=
            (Accounts.eat _).bind fun _ => .pure value
          exact heat.weaken (fun _ => rfl) s hs

theorem Accounts.expressionExpected {c : Bool} : Accounts g known c (Grammar.expressionExpected g) := by
  intro s _
  cases hp : s.pending with
  | nil =>
      rw [expressionExpected_of_nil hp]
      exact ⟨.refl s, .unexpectedEnd hp rfl⟩
  | cons t rest =>
      rw [expressionExpected_of_cons hp]
      exact ⟨.refl s, .expressionExpected hp⟩

end Parse

/-! ## Productions -/

def TwoRuns.Known (P : TwoRuns) (t : Token) : Prop :=
  ∃ u, P.Meets t u

theorem Alike.accounts {P : TwoRuns} {h : Nat} {b c : Bool} {m m' : Parse α}
    (hcalls : ∀ p, Accounts P.left P.Known true (P.callLeft p)) (hm : Alike P h b c m m') :
    Accounts P.left P.Known c m := by
  induction hm with
  | pure a => exact .pure a
  | bind _ _ ihm ihf => exact ihm.bind ihf
  | look _ ih => exact fun s hs => ih s.kind s hs
  | literal _ ih =>
      intro s hs
      rw [kind_bind]
      split
      · next hk => exact EndsFrom.literal hs hk
      · exact ih s.kind s hs
  | @eat _ _ c _ f _ k _ ih =>
      have heat : Accounts P.left P.Known true (Parse.eat P.left k) := .eat k
      have hall : Accounts P.left P.Known true (Parse.eat P.left k >>= f) := by
        have hrest : ∀ s t s', s.Knows P.Known → Parse.eat P.left k s = .ok t s' →
            EndsFrom P.left P.Known false s' (f t s') := by
          intro s t s' hs h
          obtain ⟨rest, hp, hkind, -, -⟩ := eat_eq_ok.1 h
          obtain ⟨u, hu⟩ := hs t (hp ▸ List.mem_cons_self)
          exact ih t u hu hkind s' ((heat.ok hs h).knows hs)
        exact heat.bind_of hrest
      exact hall.weaken fun _ => rfl
  | nested _ ih => exact ih.nested
  | call p _ => exact (hcalls p).weaken fun _ => rfl
  | loop _ _ _ _ ih => exact .whileKind ih _
  | noExpression => exact .expressionExpected
  | noOperator hmeets hnot => exact .fail fun _ _ => .unknownOperator ⟨_, hmeets⟩ hnot
  | noTarget hmeets hk => exact .fail fun _ _ => .invalidTarget ⟨_, hmeets⟩ hk

/-- A parse paired with itself, in which the known tokens meet themselves. -/
def TwoRuns.alone (g : Setting) (calls : Nat) (known : Token → Prop) : TwoRuns where
  left := g
  right := g
  callLeft := Grammar.run g calls
  callRight := Grammar.run g calls
  Meets t u := t = u ∧ known t
  lexeme_eq h := congrArg Token.lexeme h.1
  advancesLeft := Grammar.run_advances calls
  advancesRight := Grammar.run_advances calls

theorem TwoRuns.known_alone (g : Setting) (calls : Nat) (known : Token → Prop) :
    (alone g calls known).Known = known := by
  funext t
  refine propext ⟨?_, fun ht => ⟨t, rfl, ht⟩⟩
  rintro ⟨u, -, ht⟩
  exact ht

/-- **Every production accounts for what it has done**, whatever its outcome. -/
theorem Grammar.run_accounts (calls : Nat) (p : Production) :
    Accounts g known true (run g calls p) := by
  induction calls generalizing p with
  | zero => exact fun s _ => ⟨.refl s, .outOfCalls⟩
  | succ calls ih =>
      rw [← TwoRuns.known_alone g calls known] at ih ⊢
      exact (body_alike (P := .alone g calls known) p).accounts ih

theorem Program.parse_accounts : Accounts g known false (Program.parse g) := by
  have hcalls : ∀ p, Accounts g known true (Grammar.run g (callBudget g.limit) p) :=
    Grammar.run_accounts (callBudget g.limit)
  have halike := Grammar.statementsUntil_alike (P := .alone g (callBudget g.limit) known) (h := 2)
    (b := true) .endOfInput (by decide)
  rw [← TwoRuns.known_alone g (callBudget g.limit) known] at hcalls ⊢
  exact (halike.accounts hcalls).bind fun _ => .pure _

end LetterLang

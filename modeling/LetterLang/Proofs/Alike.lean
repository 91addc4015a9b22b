import LetterLang.Proofs.Soundness

/-!
# Steps that are written alike

The productions are built from a few steps: look at the next kind, consume a token, go one level
deeper, repeat, call another production, and the handful of ways to fail. `Alike` says of two steps
that they are built in the same way from such steps, though they may belong to two parses with
different settings, different calls and different tokens. It is the least relation with one rule
for each kind of step, so a statement about two parses, or about one parse paired with itself, is
proved by one case for each rule.

- `TwoRuns`: the two parses, and which of their tokens meet.
- `Alike P height atEnd consumes m m'`: the steps are built alike. The three indices say what such a
  step may do: call, within its own level of nesting, only productions lower than `height`; be run
  at the end of the input (`atEnd`); and succeed only after having consumed a token (`consumes`).
- `Alike.advances`: a step that succeeds has moved tokens from those pending to those consumed, and
  is back at its level of nesting.

Before that come the outcomes of composed steps, failures included, and loops without their bound
(`Parse.whileKind_eq`).
-/

namespace LetterLang

variable {g : Setting} {s s' : ParseState} {α β : Type}

/-! ## States that follow one another -/

/-- Some tokens have moved from those pending to those consumed, at least one if `consumes`, and
the level of nesting is the same. -/
structure ParseState.Leads (consumes : Bool) (s s' : ParseState) : Prop where
  depth : s'.depth = s.depth
  tokens : ∃ used, s.pending = used ++ s'.pending ∧ s'.consumed = used.reverse ++ s.consumed ∧
    (consumes = true → used ≠ [])

namespace ParseState.Leads

variable {c c' : Bool} {s₁ : ParseState}

theorem refl (s : ParseState) : Leads false s s :=
  ⟨rfl, [], rfl, rfl, nofun⟩

theorem trans (h : Leads c s s₁) (h' : Leads c' s₁ s') : Leads c s s' := by
  obtain ⟨hd, used, hp, hc, hne⟩ := h
  obtain ⟨hd', used', hp', hc', -⟩ := h'
  refine ⟨hd'.trans hd, used ++ used', ?_, ?_, ?_⟩
  · rw [hp, hp', List.append_assoc]
  · rw [hc', hc, List.reverse_append, List.append_assoc]
  · intro hcons
    exact List.append_ne_nil_of_left_ne_nil (hne hcons) _

theorem weaken (h : Leads c s s') (hc : c' = true → c = true) : Leads c' s s' := by
  obtain ⟨hd, used, hp, hconsumed, hne⟩ := h
  exact ⟨hd, used, hp, hconsumed, fun hc' => hne (hc hc')⟩

theorem length_lt (h : Leads true s s') : s'.pending.length < s.pending.length := by
  obtain ⟨used, hp, -, hne⟩ := h.tokens
  have hpos := List.length_pos_iff.2 (hne rfl)
  rw [hp, List.length_append]
  omega

end ParseState.Leads

namespace Parse

/-- Whenever the step gives a result, its state leads to the state after it. -/
def Advances (consumes : Bool) (m : Parse α) : Prop :=
  ∀ s a s', m s = .ok a s' → s.Leads consumes s'

/-- A round of a loop consumes a token, where the next kind calls for the round. -/
def Progress (more : TokenKind → Bool) (step : α → Parse α) : Prop :=
  ∀ a s b s', more s.kind = true → step a s = .ok b s' → s'.pending.length < s.pending.length

/-! ## Composed steps, whatever their outcome -/

theorem bind_of_ok {m : Parse α} {f : α → Parse β} {a : α} (h : m s = .ok a s') :
    (m >>= f) s = f a s' := by
  show EStateM.bind m f s = _
  rw [EStateM.bind, h]

theorem bind_of_error {m : Parse α} {f : α → Parse β} {e : Stop} (h : m s = .error e s') :
    (m >>= f) s = .error e s' := by
  show EStateM.bind m f s = _
  rw [EStateM.bind, h]

theorem bind_eq_of_eq {m m' : Parse α} {f : α → Parse β} (h : m s = m' s') :
    (m >>= f) s = (m' >>= f) s' := by
  show EStateM.bind m f s = EStateM.bind m' f s'
  rw [EStateM.bind, h, EStateM.bind]

theorem kind_bind {f : TokenKind → Parse β} : (kind >>= f) s = f s.kind s :=
  rfl

theorem lookahead_bind {f : Token → Parse β} : (lookahead g >>= f) s = f (s.lookahead g) s :=
  rfl

theorem discard_eq_bind (m : Parse α) : discard m = m >>= fun _ => pure () := by
  funext s
  show EStateM.map _ m s = EStateM.bind m _ s
  rw [EStateM.map, EStateM.bind]
  cases m s <;> rfl

theorem eat_failed {k : TokenKind} {e : Stop} (h : eat g k s = .error e s') :
    ∃ error, e = .failed error := by
  cases hp : s.pending with
  | nil =>
      rw [eat_of_nil hp] at h
      cases h
      exact ⟨_, rfl⟩
  | cons t rest =>
      by_cases hk : t.kind = k
      · subst hk
        rcases complete_or_fault g with hc | ⟨fault, hf⟩
        · rw [eat_of_cons hp fun _ => hc] at h
          cases h
        · cases rest with
          | nil =>
              rw [eat_of_fault hp hf] at h
              cases h
              exact ⟨_, rfl⟩
          | cons u rest =>
              rw [eat_of_cons hp nofun] at h
              cases h
      · rw [eat_of_ne hp hk] at h
        cases h
        exact ⟨_, rfl⟩

theorem literal_of_none (h : Grammar.literal? (s.lookahead g) = none) :
    Grammar.literal g s = .error (.failed (.grammar
      (.unexpectedLiteral (s.lookahead g).text (s.lookahead g).span))) s := by
  rw [Grammar.literal, lookahead_bind, h]
  rfl

theorem literal_of_some {value : Expr} (h : Grammar.literal? (s.lookahead g) = some value) :
    Grammar.literal g s = (eat g (s.lookahead g).kind >>= fun _ => pure value) s := by
  rw [Grammar.literal, lookahead_bind, h]
  show (discard (eat g (s.lookahead g).kind) >>= fun _ => pure value) s = _
  rw [discard_eq_bind]
  cases heat : eat g (s.lookahead g).kind s with
  | error e s₁ => exact (bind_of_error (bind_of_error heat)).trans (bind_of_error heat).symm
  | ok t s₁ =>
      have hdiscard : (eat g (s.lookahead g).kind >>= fun _ => pure ()) s = .ok () s₁ :=
        bind_of_ok heat
      rw [bind_of_ok hdiscard, bind_of_ok heat]

theorem expressionExpected_of_nil (h : s.pending = []) :
    Grammar.expressionExpected g s =
      .error (.failed (.grammar (.unexpectedEnd .expression g.ending.offset))) s := by
  obtain ⟨pending, consumed, depth⟩ := s
  obtain rfl : pending = [] := h
  rfl

theorem expressionExpected_of_cons {t : Token} {rest : List Token} (h : s.pending = t :: rest) :
    Grammar.expressionExpected g s =
      .error (.failed (.grammar (.expressionExpected t.text t.span))) s := by
  obtain ⟨pending, consumed, depth⟩ := s
  obtain rfl : pending = t :: rest := h
  rfl

theorem nested_of_le {m : Parse α} (h : g.limit.toNat ≤ s.depth) :
    nested g m s = .error (.failed (.grammar (.nestingTooDeep g.limit (s.lookahead g).span))) s := by
  refine bind_of_error ?_
  show (if g.limit.toNat ≤ s.depth then _ else _ : Parse Unit) s = _
  rw [if_pos h]
  rfl

theorem nested_of_lt {m : Parse α} (h : s.depth < g.limit.toNat) :
    nested g m s = match m { s with depth := s.depth + 1 } with
      | .ok a s' => .ok a (leave s')
      | .error e s' => .error e (leave s') :=
  bind_of_ok (enter_eq_ok (u := ()).2 ⟨h, rfl⟩)

/-! ## Loops without a bound

A loop is bounded by the tokens that are left when it starts. Where each round consumes a token
the bound is never met, and the loop is the one that tests, does a round and starts again. -/

section Loops

variable {more : TokenKind → Bool} {step : α → Parse α} {a : α}

theorem kind_of_nil (h : s.pending = []) : s.kind = .endOfInput := by
  rw [ParseState.kind, h]

/-- Any two bounds do that are not below the number of tokens that are left. -/
theorem repeatWhile_eq_of_le (hend : more .endOfInput = false) (hp : Progress more step) {n : Nat}
    {fuel fuel' : List Token} (hn : s.pending.length ≤ n) (hf : n ≤ fuel.length)
    (hf' : n ≤ fuel'.length) : repeatWhile more step fuel a s = repeatWhile more step fuel' a s := by
  induction n generalizing a s fuel fuel' with
  | zero =>
      have hkind := kind_of_nil (List.length_eq_zero_iff.1 (Nat.le_zero.1 hn))
      have hstop : ∀ fuel : List Token, repeatWhile more step fuel a s = .ok a s := by
        intro fuel
        cases fuel with
        | nil => rfl
        | cons t fuel =>
            rw [repeatWhile_cons, hkind, hend]
            rfl
      rw [hstop, hstop]
  | succ n ih =>
      cases fuel with
      | nil => exact absurd hf (by simp)
      | cons t fuel =>
          cases fuel' with
          | nil => exact absurd hf' (by simp)
          | cons t' fuel' =>
              rw [repeatWhile_cons, repeatWhile_cons]
              by_cases hm : more s.kind = true
              · rw [if_pos hm, if_pos hm]
                cases hstep : step a s with
                | error e s₁ => rw [bind_of_error hstep, bind_of_error hstep]
                | ok b s₁ =>
                    rw [bind_of_ok hstep, bind_of_ok hstep]
                    have hlt := hp a s b s₁ hm hstep
                    rw [List.length_cons] at hf hf'
                    exact ih (by omega) (by omega) (by omega)
              · rw [if_neg hm, if_neg hm]

/-- **Loops unfold.** A loop that makes progress tests, does a round and starts again. -/
theorem whileKind_eq (hend : more .endOfInput = false) (hp : Progress more step) :
    whileKind more step a s =
      if more s.kind = true then (step a >>= whileKind more step) s else .ok a s := by
  show repeatWhile more step s.pending a s = _
  cases hpending : s.pending with
  | nil =>
      rw [kind_of_nil hpending, hend]
      rfl
  | cons t rest =>
      rw [repeatWhile_cons]
      by_cases hm : more s.kind = true
      · rw [if_pos hm, if_pos hm]
        cases hstep : step a s with
        | error e s₁ => rw [bind_of_error hstep, bind_of_error hstep]
        | ok b s₁ =>
            rw [bind_of_ok hstep, bind_of_ok hstep]
            have hlt := hp a s b s₁ hm hstep
            rw [hpending, List.length_cons] at hlt
            exact repeatWhile_eq_of_le hend hp (Nat.le_refl _) (by omega) (Nat.le_refl _)
      · rw [if_neg hm, if_neg hm]
        rfl

end Loops

end Parse

/-! ## Two parses -/

open Production (Calls)

/-- Two parses to be compared: their settings, the calls that productions make in them, and the
tokens that one may consume while the other consumes its own. Tokens that meet have the same kind
and text. -/
structure TwoRuns where
  left : Setting
  right : Setting
  callLeft : Calls
  callRight : Calls
  Meets : Token → Token → Prop
  lexeme_eq : ∀ {t u}, Meets t u → t.lexeme = u.lexeme
  advancesLeft : ∀ p, Parse.Advances true (callLeft p)
  advancesRight : ∀ p, Parse.Advances true (callRight p)

/-- How many calls of productions may be open at once before a deeper level of nesting, that of the
production itself included. -/
def Production.height : Production → Nat
  | .statement | .assignment => 1
  | .block | .declaration | .ifStatement | .whileStatement | .doWhileStatement | .returnStatement
  | .expressionStatement | .arguments | .primary => 2
  | .declarations | .functionDeclaration | .classDeclaration | .member => 3
  | .variableStatement | .forStatement | .callMember | .new => 4
  | .unary => 5
  | .binary min => 11 - min.rank

def Production.maxHeight : Nat :=
  12

theorem Production.height_lt (p : Production) : p.height < maxHeight := by
  cases p with
  | binary min => exact Nat.lt_succ_of_le (Nat.sub_le _ _)
  | _ => exact of_decide_eq_true rfl

open Parse in
/-- The two steps are built alike. A step with `atEnd` is fit to be run at the end of the input:
what it does there is to succeed at once or to fail for want of a token. -/
inductive Alike (P : TwoRuns) : Nat → Bool → Bool → {α : Type} → Parse α → Parse α → Prop
  | pure {h b} {α : Type} (a : α) : Alike P h b false (Pure.pure a) (Pure.pure a)
  | bind {h b c} {α β : Type} {m m' : Parse α} {f f' : α → Parse β} :
      Alike P h b c m m' → (∀ a, Alike P h true false (f a) (f' a)) →
      Alike P h b c (m >>= f) (m' >>= f')
  /-- What is done next depends on the kind of the next token. -/
  | look {h b c} {β : Type} {f f' : TokenKind → Parse β} :
      (∀ k, Alike P h true c (f k) (f' k)) → Alike P h b c (kind >>= f) (kind >>= f')
  /-- A literal if the next token is one. -/
  | literal {h b c} {f f' : TokenKind → Parse Expr} :
      (∀ k, Alike P h true c (f k) (f' k)) →
      Alike P h b c (kind >>= fun k => if k.isLiteral then Grammar.literal P.left else f k)
        (kind >>= fun k => if k.isLiteral then Grammar.literal P.right else f' k)
  | eat {h b c} {β : Type} {f f' : Token → Parse β} (k : TokenKind) :
      (∀ t u, P.Meets t u → t.kind = k → Alike P h false false (f t) (f' u)) →
      Alike P h b c (Parse.eat P.left k >>= f) (Parse.eat P.right k >>= f')
  | nested {h b c} {α : Type} {m m' : Parse α} : Alike P Production.maxHeight b c m m' →
      Alike P h b c (Parse.nested P.left m) (Parse.nested P.right m')
  | call {h b c} (p : Production) : p.height < h → Alike P h b c (P.callLeft p) (P.callRight p)
  /-- A round depends on the next kind, and is done only where that kind calls for it. -/
  | loop {h b} {α : Type} {more : TokenKind → Bool} {f f' : α → TokenKind → Parse α} {a : α} :
      more .endOfInput = false →
      Progress more (fun a => kind >>= f a) → Progress more (fun a => kind >>= f' a) →
      (∀ a k, more k = true → Alike P h true false (f a k) (f' a k)) →
      Alike P h b false (whileKind more (fun a => kind >>= f a) a)
        (whileKind more (fun a => kind >>= f' a) a)
  | noExpression {h b c} :
      Alike P h b c (Grammar.expressionExpected P.left) (Grammar.expressionExpected P.right)
  /-- The text of an operator token is no operator, which no token of a source is. -/
  | noOperator {h b c} {α : Type} {t u : Token} {expected : Expectation} :
      P.Meets t u → ¬ t.lexeme.Spelled →
      Alike P h b c (Grammar.unknownOperator t expected : Parse α)
        (Grammar.unknownOperator u expected)
  /-- The target of an assignment is refused after its operator has been consumed. -/
  | noTarget {h c} {α : Type} {t u : Token} {kind : Kind} : P.Meets t u →
      t.kind.isAssignment = true → Alike P h false c (fail (.invalidTarget kind t.span) : Parse α)
        (fail (.invalidTarget kind u.span))

namespace Parse.Advances

variable {c c' : Bool} {m : Parse α}

theorem weaken (hm : Advances c m) (hc : c' = true → c = true) : Advances c' m :=
  fun s a s' h => (hm s a s' h).weaken hc

theorem pure (a : α) : Advances false (Pure.pure a : Parse α) := by
  intro s b s' h
  obtain ⟨-, rfl⟩ := pure_eq_ok.1 h
  exact .refl s

theorem bind {f : α → Parse β} (hm : Advances c m) (hf : ∀ a, Advances c' (f a)) :
    Advances c (m >>= f) := by
  intro s b s' h
  obtain ⟨a, s₁, h₁, h⟩ := bind_eq_ok.1 h
  exact (hm s a s₁ h₁).trans (hf a s₁ b s' h)

theorem kind_bind {f : TokenKind → Parse β} (hf : ∀ k, Advances c (f k)) :
    Advances c (kind >>= f) :=
  fun s b s' h => hf s.kind s b s' h

theorem eat (expected : TokenKind) : Advances true (Parse.eat g expected) := by
  intro s t s' h
  obtain ⟨rest, hp, -, -, rfl⟩ := eat_eq_ok.1 h
  exact ⟨rfl, [t], hp, rfl, fun _ => List.cons_ne_nil _ _⟩

theorem nested (hm : Advances c m) : Advances c (Parse.nested g m) := by
  intro s a s' h
  obtain ⟨-, s₁, h₁, rfl⟩ := nested_eq_ok.1 h
  obtain ⟨hd, used, hp, hc, hne⟩ := hm _ _ _ h₁
  refine ⟨?_, used, hp, hc, hne⟩
  rw [leave, hd]
  exact Nat.add_sub_cancel _ _

theorem whileKind {more : TokenKind → Bool} {f : α → TokenKind → Parse α}
    (hf : ∀ a k, more k = true → Advances c (f a k)) (a : α) :
    Advances false (Parse.whileKind more (fun a => kind >>= f a) a) := by
  have rounds : ∀ (fuel : List Token) (a : α),
      Advances false (repeatWhile more (fun a => kind >>= f a) fuel a) := by
    intro fuel
    induction fuel with
    | nil => exact pure
    | cons t fuel ih =>
        intro a s b s' h
        rw [repeatWhile_cons] at h
        split at h
        · next hm =>
          obtain ⟨a₁, s₁, h₁, h⟩ := bind_eq_ok.1 h
          have hround : s.Leads false s₁ := (hf a s.kind hm s a₁ s₁ h₁).weaken nofun
          exact hround.trans (ih a₁ s₁ b s' h)
        · exact pure a s b s' h
  intro s b s' h
  exact rounds s.pending a s b s' h

theorem literal : Advances true (Grammar.literal g) := by
  intro s e s' h
  cases hlit : Grammar.literal? (s.lookahead g) with
  | none =>
      rw [literal_of_none hlit] at h
      cases h
  | some value =>
      rw [literal_of_some hlit] at h
      exact (eat _).bind (fun _ => pure value) s e s' h

theorem of_fails (hm : ∀ s a s', m s ≠ .ok a s') : Advances c m :=
  fun s a s' h => absurd h (hm s a s')

end Parse.Advances

theorem Parse.Progress.of_advances {more : TokenKind → Bool} {step : α → Parse α}
    (hstep : ∀ a, Advances true (step a)) : Progress more step :=
  fun a s b s' _ h => (hstep a s b s' h).length_lt

namespace Alike

open Parse

variable {P : TwoRuns} {h : Nat} {b c : Bool}

/-- What the index `consumes` promises, where no token is left without one to meet it. -/
theorem advances {m m' : Parse α} (hmeets : ∀ t, ∃ u, P.Meets t u) (hm : Alike P h b c m m') :
    Advances c m := by
  induction hm with
  | pure a => exact .pure a
  | bind _ _ ihm ihf => exact ihm.bind ihf
  | look _ ih => exact .kind_bind ih
  | literal _ ih =>
      refine .kind_bind fun k => ?_
      split
      · exact Advances.literal.weaken fun _ => rfl
      · exact ih k
  | eat k _ ih =>
      intro s a s' hok
      obtain ⟨t, s₁, h₁, hok⟩ := bind_eq_ok.1 hok
      obtain ⟨u, htu⟩ := hmeets t
      obtain ⟨-, -, hkind, -⟩ := eat_eq_ok.1 h₁
      have heat := Advances.eat k s t s₁ h₁
      exact (heat.trans (ih t u htu hkind s₁ a s' hok)).weaken fun _ => rfl
  | nested _ ih => exact ih.nested
  | call p _ => exact (P.advancesLeft p).weaken fun _ => rfl
  | loop _ _ _ _ ih => exact .whileKind ih _
  | noExpression => exact .of_fails fun s a s' => Grammar.expressionExpected_eq_ok.1
  | noOperator _ _ => exact .of_fails fun s a s' => fail_eq_ok.1
  | noTarget _ _ => exact .of_fails fun s a s' => fail_eq_ok.1

end Alike

end LetterLang

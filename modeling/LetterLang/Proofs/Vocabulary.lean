import LetterLang.Proofs.Climbing
import LetterLang.Proofs.Guidance
import LetterLang.Proofs.WholeNumber

/-!
# What errors speak of

A parse that fails names what its place calls for, and only few kinds of tokens are ever named where
another token stands: in all other places the kind of the next token has been looked at before. The
text of an operator token is always an operator of its family, and only numbers that are not finite
have no value as literals.

- `TokenKind.vocabulary`: the kinds that are named.
- `Parse.Regular`: what the error of a step can be.
- `Parse.Orderly`: a step that stops only with such an error, where the next token is of a kind that
  it can start with. One lemma for each form of step, one for each production.
- `Grammar.run_orderly`: every production is orderly, by induction on its calls.
- `parse_error_vocabulary`: the errors of a source.
-/

namespace LetterLang

open Parse

variable {g : Setting} {tokens : List Token} {s s' : ParseState} {α β : Type}

/-- The kinds that a place calls for where a token of another kind stands. -/
def TokenKind.vocabulary : List TokenKind :=
  [.delimiter .semicolon, .delimiter .openBrace, .delimiter .openParen, .delimiter .closeParen,
    .delimiter .closeBracket, .keyword .whileWord, .identifier, .simpleAssign]

open TokenKind (vocabulary)

def Token.SpelledIn (tokens : List Token) (t : Token) : Prop :=
  t ∈ tokens ∧ t.lexeme.Spelled

namespace Parse

/-- What the error of a step can be. A literal without a value is a number that is not finite. -/
inductive Regular (tokens : List Token) : Stop → Prop
  | outOfCalls : Regular tokens .outOfCalls
  | scan {e} : Regular tokens (.failed (.scan e))
  | unexpectedToken {found k span} : k ∈ vocabulary →
      Regular tokens (.failed (.grammar (.unexpectedToken found (.token k) span)))
  | unexpectedEnd {k offset} : k ∈ vocabulary ∨ k = .delimiter .closeBrace →
      Regular tokens (.failed (.grammar (.unexpectedEnd (.token k) offset)))
  | expressionAtEnd {offset} :
      Regular tokens (.failed (.grammar (.unexpectedEnd .expression offset)))
  | expressionExpected {found span} :
      Regular tokens (.failed (.grammar (.expressionExpected found span)))
  | unexpectedLiteral {t v} : t ∈ tokens → t.kind = .number → Binary64.ofText? t.text = some v →
      v.isFinite = false → Regular tokens (.failed (.grammar (.unexpectedLiteral t.text t.span)))
  | invalidTarget {kind span} :
      Regular tokens (.failed (.grammar (.invalidTarget kind span)))
  | nestingTooDeep {limit span} :
      Regular tokens (.failed (.grammar (.nestingTooDeep limit span)))

/-- An outcome that leaves known tokens, or stops with such an error. -/
def EndsOrderly (tokens : List Token) : EStateM.Result Stop ParseState α → Prop
  | .ok _ s => s.Knows (Token.SpelledIn tokens)
  | .error e _ => Regular tokens e

/-- A step that has such an outcome where the next token is of a kind that it can start with. -/
def Orderly (tokens : List Token) (starts : TokenKind → Prop) (m : Parse α) : Prop :=
  ∀ s, s.Knows (Token.SpelledIn tokens) → starts s.kind → EndsOrderly tokens (m s)

def anyKind : TokenKind → Prop := fun _ => True

/-- Where a token of kind `k` is consumed, it is in the vocabulary, or the next token is known to be
one. A closing brace may also be missing at the end of the input. -/
def Fits (k next : TokenKind) : Prop :=
  k ∈ vocabulary ∨ next = k ∨ k = .delimiter .closeBrace ∧ next = .endOfInput

/-! ## Steps -/

namespace Orderly

variable {starts starts' : TokenKind → Prop} {m : Parse α}

theorem weaken (hm : Orderly tokens starts m) (h : ∀ k, starts' k → starts k) :
    Orderly tokens starts' m :=
  fun s hs hk => hm s hs (h _ hk)

theorem pure (a : α) : Orderly tokens starts (Pure.pure a : Parse α) :=
  fun _ hs _ => hs

theorem fail {e : SyntaxError} (h : Regular tokens (.failed (.grammar e))) :
    Orderly tokens starts (Parse.fail e : Parse α) :=
  fun _ _ _ => h

theorem bind_of {f : α → Parse β} (hm : Orderly tokens starts m)
    (hf : ∀ s a s', s.Knows (Token.SpelledIn tokens) → s'.Knows (Token.SpelledIn tokens) →
      m s = .ok a s' → EndsOrderly tokens (f a s')) : Orderly tokens starts (m >>= f) := by
  intro s hs hk
  have hfirst := hm s hs hk
  cases h : m s with
  | ok a s' =>
      rw [h] at hfirst
      rw [bind_of_ok h]
      exact hf s a s' hs hfirst h
  | error e s' =>
      rw [h] at hfirst
      rw [bind_of_error h]
      exact hfirst

theorem bind {f : α → Parse β} (hm : Orderly tokens starts m)
    (hf : ∀ a, Orderly tokens anyKind (f a)) : Orderly tokens starts (m >>= f) :=
  hm.bind_of fun _ a s' _ hs' _ => hf a s' hs' trivial

theorem look {f : TokenKind → Parse β} (hf : ∀ k, starts k → Orderly tokens (· = k) (f k)) :
    Orderly tokens starts (kind >>= f) :=
  fun s hs hk => hf s.kind hk s hs rfl

theorem eat {k : TokenKind} (hk : k ≠ .endOfInput) : Orderly tokens (Fits k) (Parse.eat g k) := by
  intro s hs hfits
  cases hp : s.pending with
  | nil =>
      rw [kind_of_nil hp] at hfits
      rw [eat_of_nil hp]
      rcases hfits with hvocabulary | hnext | ⟨hbrace, -⟩
      · exact .unexpectedEnd (.inl hvocabulary)
      · exact absurd hnext.symm hk
      · exact .unexpectedEnd (.inr hbrace)
  | cons t rest =>
      have ht : Token.SpelledIn tokens t := hs t (hp ▸ List.mem_cons_self)
      rw [ParseState.kind_of_cons hp] at hfits
      by_cases hkind : t.kind = k
      · subst hkind
        rcases eat_or_fault (g := g) hp with ⟨-, hok⟩ | ⟨e, -, herror⟩
        · rw [hok]
          exact fun u hu => hs u (hp ▸ List.mem_cons_of_mem t hu)
        · rw [herror]
          exact .scan
      · rw [eat_of_ne hp hkind]
        rcases hfits with hvocabulary | hnext | ⟨-, hend⟩
        · exact .unexpectedToken hvocabulary
        · exact absurd hnext hkind
        · have hspelled := ht.2
          rw [Token.lexeme, hend] at hspelled
          exact hspelled.elim

theorem eat_bind {k : TokenKind} {f : Token → Parse β} (hk : k ≠ .endOfInput)
    (hf : ∀ t, t.lexeme.Spelled → t.kind = k → Orderly tokens anyKind (f t)) :
    Orderly tokens (Fits k) (Parse.eat g k >>= f) := by
  refine (eat hk).bind_of fun s t s' hs hs' h => ?_
  obtain ⟨rest, hp, hkind, -, -⟩ := eat_eq_ok.1 h
  have ht : Token.SpelledIn tokens t := hs t (hp ▸ List.mem_cons_self)
  exact hf t ht.2 hkind s' hs' trivial

theorem discard_eat {k : TokenKind} (hk : k ≠ .endOfInput) :
    Orderly tokens (Fits k) (discard (Parse.eat g k)) := by
  rw [discard_eq_bind]
  exact (eat hk).bind fun _ => .pure ()

theorem delimiter (d : Delimiter) : Orderly tokens (Fits (.delimiter d)) (Parse.delimiter g d) :=
  discard_eat nofun

theorem keyword (k : Keyword) : Orderly tokens (Fits (.keyword k)) (Parse.keyword g k) :=
  discard_eat nofun

theorem anywhere {k : TokenKind} (hm : Orderly tokens (Fits k) m) (hk : k ∈ vocabulary) :
    Orderly tokens starts m :=
  hm.weaken fun _ _ => .inl hk

theorem here {k : TokenKind} (hm : Orderly tokens (Fits k) m) : Orderly tokens (· = k) m :=
  hm.weaken fun _ hk => .inr (.inl hk)

theorem identifier : Orderly tokens starts (Parse.identifier g) :=
  ((eat (k := .identifier) nofun).anywhere (by decide)).bind fun t => .pure t.text

theorem nested (hm : Orderly tokens starts m) : Orderly tokens starts (Parse.nested g m) := by
  intro s hs hk
  by_cases hd : g.limit.toNat ≤ s.depth
  · rw [nested_of_le hd]
    exact .nestingTooDeep
  · rw [nested_of_lt (Nat.lt_of_not_le hd)]
    have hinside := hm { s with depth := s.depth + 1 } hs hk
    cases h : m { s with depth := s.depth + 1 } with
    | ok a s' =>
        rw [h] at hinside
        exact hinside
    | error e s' =>
        rw [h] at hinside
        exact hinside

theorem whileKind {more : TokenKind → Bool} {step : α → Parse α}
    (hstep : ∀ a, Orderly tokens (fun k => more k = true) (step a)) (a : α) :
    Orderly tokens starts (Parse.whileKind more step a) := by
  have rounds : ∀ (fuel : List Token) (a : α),
      Orderly tokens anyKind (repeatWhile more step fuel a) := by
    intro fuel
    induction fuel with
    | nil => exact pure
    | cons t fuel ih =>
        intro a s hs hk
        rw [repeatWhile_cons]
        split
        · next hmore => exact ((hstep a).bind ih) s hs hmore
        · exact hs
  exact fun s hs _ => rounds s.pending a s hs trivial

theorem commaSeparated (hm : Orderly tokens anyKind m) :
    Orderly tokens anyKind (Parse.commaSeparated g m) := by
  refine hm.bind fun first => (whileKind (fun items => ?_) _).bind fun items => .pure _
  refine ((delimiter .comma).here.weaken fun k hk => of_decide_eq_true hk).bind fun _ => ?_
  exact hm.bind fun item => .pure _

end Orderly

end Parse

/-! ## Productions -/

/-- A production whose first token is not in the vocabulary is entered only before such a token. -/
def Production.Enters (p : Production) (k : TokenKind) : Prop :=
  p.opening ∈ vocabulary ∨ k = p.opening

namespace Grammar

variable {calls : Nat}

def Ordered (g : Setting) (tokens : List Token) (calls : Nat) : Prop :=
  ∀ p : Production, Orderly tokens p.Enters (run g calls p)

theorem Ordered.anywhere (h : Ordered g tokens calls) {starts : TokenKind → Prop} (p : Production)
    (hp : p.opening ∈ vocabulary) : Orderly tokens starts (run g calls p) :=
  (h p).weaken fun _ _ => .inl hp

theorem Ordered.here (h : Ordered g tokens calls) (p : Production) :
    Orderly tokens (· = p.opening) (run g calls p) :=
  (h p).weaken fun _ hk => .inr hk

theorem statementOf_orderly (h : Ordered g tokens calls) (k : TokenKind) :
    Orderly tokens (· = k) (statementOf g (run g calls) k) := by
  unfold statementOf
  split
  · exact ((Orderly.delimiter _).here).bind fun _ => .pure _
  · exact (h.here .block).bind fun _ => .pure _
  · exact h.here .variableStatement
  · exact h.here .ifStatement
  · exact h.here .whileStatement
  · exact h.here .doWhileStatement
  · exact h.here .forStatement
  · exact h.here .functionDeclaration
  · exact h.here .classDeclaration
  · exact h.here .returnStatement
  · exact h.anywhere .expressionStatement (by decide)

theorem statement_orderly (h : Ordered g tokens calls) :
    Orderly tokens anyKind (statement g (run g calls)) :=
  .nested (.look fun k _ => statementOf_orderly h k)

theorem statementsUntil_orderly (h : Ordered g tokens calls) (stop : TokenKind) :
    Orderly tokens anyKind (statementsUntil (run g calls) stop) := by
  refine (Orderly.whileKind (fun items => ?_) _).bind fun items => .pure _
  exact (h.anywhere .statement (by decide)).bind fun _ => .pure _

theorem kind_of_statementsUntil {stop : TokenKind} {body : List Statement}
    (h : statementsUntil (run g calls) stop s = .ok body s') :
    s'.kind = stop ∨ s'.kind = .endOfInput := by
  obtain ⟨items, s₁, hloop, h⟩ := bind_eq_ok.1 h
  obtain ⟨-, rfl⟩ := pure_eq_ok.1 h
  have hprogress : Progress (fun k => k ≠ stop && k ≠ .endOfInput)
      (fun items => run g calls .statement >>= fun item => pure (item :: items)) :=
    .of_advances fun items => (run_advances calls .statement).bind fun _ => .pure _
  have hstop := whileKind_stops (by simp) hprogress hloop
  by_cases hkind : s₁.kind = stop
  · exact .inl hkind
  · refine .inr ?_
    simpa [hkind] using hstop

theorem block_orderly (h : Ordered g tokens calls) :
    Orderly tokens anyKind (block g (run g calls)) := by
  refine ((Orderly.delimiter .openBrace).anywhere (by decide)).bind fun _ => ?_
  refine (statementsUntil_orderly h _).bind_of fun s body s' _ hs' hbody => ?_
  have hclose : Orderly tokens (Fits (.delimiter .closeBrace))
      (delimiter g .closeBrace >>= fun _ => pure body) :=
    (Orderly.delimiter _).bind fun _ => .pure _
  refine hclose s' hs' ?_
  rcases kind_of_statementsUntil hbody with hkind | hkind
  · exact .inr (.inl hkind)
  · exact .inr (.inr ⟨rfl, hkind⟩)

theorem variableStatement_orderly (h : Ordered g tokens calls) :
    Orderly tokens (· = .keyword .letWord) (variableStatement g (run g calls)) :=
  (h.here .declarations).bind fun _ => ((Orderly.delimiter _).anywhere (by decide)).bind fun _ =>
    .pure _

theorem declarations_orderly (h : Ordered g tokens calls) :
    Orderly tokens (· = .keyword .letWord) (declarations g (run g calls)) :=
  (Orderly.keyword _).here.bind fun _ => .commaSeparated (h.anywhere .declaration (by decide))

theorem declaration_orderly (h : Ordered g tokens calls) :
    Orderly tokens anyKind (declaration g (run g calls)) := by
  refine Orderly.identifier.bind fun name => .look fun k _ => ?_
  split
  · exact .pure _
  · exact .pure _
  · exact ((Orderly.discard_eat (k := .simpleAssign) nofun).anywhere (by decide)).bind fun _ =>
      (h.anywhere .assignment (by decide)).bind fun _ => .pure _

theorem condition_orderly (h : Ordered g tokens calls) {starts : TokenKind → Prop} :
    Orderly tokens starts (condition g (run g calls)) :=
  ((Orderly.delimiter _).anywhere (by decide)).bind fun _ =>
    (h.anywhere .assignment (by decide)).bind fun _ =>
      ((Orderly.delimiter _).anywhere (by decide)).bind fun _ => .pure _

theorem ifStatement_orderly (h : Ordered g tokens calls) :
    Orderly tokens (· = .keyword .ifWord) (ifStatement g (run g calls)) := by
  refine (Orderly.keyword _).here.bind fun _ => (condition_orderly h).bind fun test =>
    (h.anywhere .statement (by decide)).bind fun consequent => .look fun k _ => ?_
  split
  · next hk =>
    subst hk
    exact (Orderly.keyword _).here.bind fun _ =>
      (h.anywhere .statement (by decide)).bind fun _ => .pure _
  · exact .pure _

theorem whileStatement_orderly (h : Ordered g tokens calls) :
    Orderly tokens anyKind (whileStatement g (run g calls)) :=
  ((Orderly.keyword _).anywhere (by decide)).bind fun _ => (condition_orderly h).bind fun _ =>
    (h.anywhere .statement (by decide)).bind fun _ => .pure _

theorem doWhileStatement_orderly (h : Ordered g tokens calls) :
    Orderly tokens (· = .keyword .doWord) (doWhileStatement g (run g calls)) :=
  (Orderly.keyword _).here.bind fun _ => (h.anywhere .statement (by decide)).bind fun _ =>
    ((Orderly.keyword _).anywhere (by decide)).bind fun _ => (condition_orderly h).bind fun _ =>
      ((Orderly.delimiter _).anywhere (by decide)).bind fun _ => .pure _

theorem expressionUnless_orderly (h : Ordered g tokens calls) (stop : Delimiter) :
    Orderly tokens anyKind (expressionUnless (run g calls) stop) := by
  refine .look fun k _ => ?_
  split
  · exact .pure _
  · exact (h.anywhere .assignment (by decide)).bind fun _ => .pure _

theorem forInit_orderly (h : Ordered g tokens calls) :
    Orderly tokens anyKind (forInit (run g calls)) := by
  refine .look fun k _ => ?_
  split
  · exact .pure _
  · exact (h.here .declarations).bind fun _ => .pure _
  · exact (h.anywhere .assignment (by decide)).bind fun _ => .pure _

theorem forStatement_orderly (h : Ordered g tokens calls) :
    Orderly tokens (· = .keyword .forWord) (forStatement g (run g calls)) :=
  (Orderly.keyword _).here.bind fun _ => ((Orderly.delimiter _).anywhere (by decide)).bind fun _ =>
    (forInit_orderly h).bind fun _ => ((Orderly.delimiter _).anywhere (by decide)).bind fun _ =>
      (expressionUnless_orderly h _).bind fun _ =>
        ((Orderly.delimiter _).anywhere (by decide)).bind fun _ =>
          (expressionUnless_orderly h _).bind fun _ =>
            ((Orderly.delimiter _).anywhere (by decide)).bind fun _ =>
              (h.anywhere .statement (by decide)).bind fun _ => .pure _

theorem parameters_orderly : Orderly tokens anyKind (parameters g) := by
  refine .look fun k _ => ?_
  split
  · exact .pure _
  · exact Orderly.identifier.commaSeparated.weaken fun _ _ => trivial

theorem functionDeclaration_orderly (h : Ordered g tokens calls) :
    Orderly tokens (· = .keyword .defWord) (functionDeclaration g (run g calls)) :=
  (Orderly.keyword _).here.bind fun _ => Orderly.identifier.bind fun _ =>
    ((Orderly.delimiter _).anywhere (by decide)).bind fun _ => parameters_orderly.bind fun _ =>
      ((Orderly.delimiter _).anywhere (by decide)).bind fun _ =>
        (h.anywhere .block (by decide)).bind fun _ => .pure _

theorem returnStatement_orderly (h : Ordered g tokens calls) :
    Orderly tokens (· = .keyword .returnWord) (returnStatement g (run g calls)) :=
  (Orderly.keyword _).here.bind fun _ => (expressionUnless_orderly h _).bind fun _ =>
    ((Orderly.delimiter _).anywhere (by decide)).bind fun _ => .pure _

theorem superclass_orderly : Orderly tokens anyKind (superclass g) := by
  refine .look fun k _ => ?_
  split
  · next hk =>
    subst hk
    exact (Orderly.keyword _).here.bind fun _ => Orderly.identifier.bind fun _ => .pure _
  · exact .pure _

theorem classDeclaration_orderly (h : Ordered g tokens calls) :
    Orderly tokens (· = .keyword .classWord) (classDeclaration g (run g calls)) :=
  (Orderly.keyword _).here.bind fun _ => Orderly.identifier.bind fun _ =>
    superclass_orderly.bind fun _ => (h.anywhere .block (by decide)).bind fun _ => .pure _

theorem expressionStatement_orderly (h : Ordered g tokens calls) :
    Orderly tokens anyKind (expressionStatement g (run g calls)) :=
  (h.anywhere .assignment (by decide)).bind fun _ =>
    ((Orderly.delimiter _).anywhere (by decide)).bind fun _ => .pure _

/-! ## Expressions -/

theorem assignmentInside_orderly (h : Ordered g tokens calls) :
    Orderly tokens anyKind (assignmentInside g (run g calls)) := by
  refine (h.anywhere (.binary .loosest) (by decide)).bind fun left => .look fun k _ => ?_
  split
  · next hk =>
    have hne : k ≠ .endOfInput := by
      rintro rfl
      cases hk
    refine (Orderly.eat_bind hne fun t ht hkind => ?_).here
    cases hop : AssignOp.ofSymbol? t.text with
    | none =>
        subst hkind
        exact absurd hop (assignOp_of_spelled ht hk)
    | some op =>
        cases left with
        | identifier name => exact (h.anywhere .assignment (by decide)).bind fun _ => .pure _
        | member object property computed =>
            exact (h.anywhere .assignment (by decide)).bind fun _ => .pure _
        | _ => exact .fail .invalidTarget
  · exact .pure _

theorem makeBinary_orderly {level : BinaryLevel} {t : Token} {left right : Expr}
    (ht : t.lexeme.Spelled) (hk : t.kind = level.kind) :
    Orderly tokens anyKind (makeBinary level t left right) := by
  obtain ⟨e, he⟩ := makeBinary_of_spelled ht hk left right
  rw [he]
  exact .pure e

theorem rightOperand_orderly (h : Ordered g tokens calls) (level : BinaryLevel) :
    Orderly tokens anyKind (rightOperand (run g calls) level) := by
  unfold rightOperand
  split
  · exact h.anywhere (.binary _) (show TokenKind.identifier ∈ vocabulary by decide)
  · exact h.anywhere .unary (by decide)

theorem binaryStep_orderly (h : Ordered g tokens calls) (left : Expr) :
    Orderly tokens anyKind (binaryStep g (run g calls) left) := by
  refine .look fun k _ => ?_
  cases hlevel : BinaryLevel.ofKind? k with
  | none => exact .pure _
  | some level =>
      obtain rfl := BinaryLevel.ofKind?_eq_some_iff.1 hlevel
      have hne : level.kind ≠ .endOfInput := by cases level <;> nofun
      refine (Orderly.eat_bind hne fun t ht hkind => ?_).here
      exact (rightOperand_orderly h level).bind fun _ => makeBinary_orderly ht hkind

theorem binary_orderly (h : Ordered g tokens calls) (min : BinaryLevel) :
    Orderly tokens anyKind (binary g (run g calls) min) :=
  (h.anywhere .unary (by decide)).bind fun _ =>
    .whileKind (fun left => (binaryStep_orderly h left).weaken fun _ _ => trivial) _

theorem unary_orderly (h : Ordered g tokens calls) :
    Orderly tokens anyKind (unary g (run g calls)) := by
  refine .look fun k _ => ?_
  split
  · next hk =>
    have hne : k ≠ .endOfInput := by rcases hk with rfl | rfl <;> nofun
    refine (Orderly.eat_bind hne fun t ht hkind => ?_).here
    cases hop : UnaryOp.ofSymbol? t.text with
    | none =>
        subst hkind
        exact absurd hop (unaryOp_of_spelled ht hk)
    | some op => exact (h.anywhere .unary (by decide)).nested.bind fun _ => .pure _
  · exact h.anywhere .callMember (by decide)

theorem callTail_orderly (h : Ordered g tokens calls) (callee : Expr) :
    Orderly tokens anyKind (callTail (run g calls) callee) :=
  (h.anywhere .arguments (by decide)).bind fun _ =>
    .whileKind (fun _ => (h.anywhere .arguments (by decide)).bind fun _ => .pure _) _

theorem callMember_orderly (h : Ordered g tokens calls) :
    Orderly tokens anyKind (callMember g (run g calls)) := by
  refine .look fun k _ => ?_
  split
  · next hk =>
    subst hk
    exact (Orderly.keyword _).here.bind fun _ => callTail_orderly h _
  · refine (h.anywhere .member (by decide)).bind fun callee => .look fun k _ => ?_
    split
    · exact (callTail_orderly h callee).weaken fun _ _ => trivial
    · exact .pure _

/-- After the loop's test, a next token other than a dot is an opening bracket. -/
theorem memberStep_orderly (h : Ordered g tokens calls) (object : Expr) :
    Orderly tokens (fun k => startsAccess k = true) (memberStep g (run g calls) object) := by
  refine .look fun k hk => ?_
  split
  · next hdot =>
    subst hdot
    exact (Orderly.delimiter _).here.bind fun _ => Orderly.identifier.bind fun _ => .pure _
  · next hdot =>
    obtain rfl : k = .delimiter .openBracket := by simpa [startsAccess, hdot] using hk
    exact (Orderly.delimiter _).here.bind fun _ =>
      (h.anywhere .assignment (by decide)).bind fun _ =>
        ((Orderly.delimiter _).anywhere (by decide)).bind fun _ => .pure _

theorem member_orderly (h : Ordered g tokens calls) :
    Orderly tokens anyKind (member g (run g calls)) :=
  (h.anywhere .primary (by decide)).bind fun _ => .whileKind (memberStep_orderly h) _

theorem arguments_orderly (h : Ordered g tokens calls) :
    Orderly tokens anyKind (arguments g (run g calls)) := by
  refine ((Orderly.delimiter _).anywhere (by decide)).bind fun _ => .look fun k _ => ?_
  have hclose : ∀ list : List Expr, Orderly tokens anyKind
      (delimiter g .closeParen >>= fun _ => pure list) :=
    fun _ => ((Orderly.delimiter _).anywhere (by decide)).bind fun _ => .pure _
  split
  · exact (hclose []).weaken fun _ _ => trivial
  · refine Orderly.bind ?_ hclose
    exact (Orderly.commaSeparated (h.anywhere .assignment (by decide))).weaken fun _ _ => trivial

/-- A literal token without a value is a number that is not finite. -/
theorem number_of_literal?_none {t : Token} (ht : t.lexeme.Spelled) (hk : t.kind.isLiteral = true)
    (h : literal? t = none) :
    t.kind = .number ∧ ∃ v, Binary64.ofText? t.text = some v ∧ v.isFinite = false := by
  unfold literal? at h
  split at h
  · next hkind =>
    rw [Token.lexeme, hkind] at ht
    have hread : ∃ v, Binary64.ofText? t.text = some v := ⟨_, Binary64.ofText?_digits ht.1 ht.2⟩
    obtain ⟨v, hv⟩ := hread
    rw [hv, Option.bind_some] at h
    split at h
    · cases h
    · next hfinite => exact ⟨hkind, v, hv, Bool.eq_false_iff.2 hfinite⟩
  · cases h
  · cases h
  · cases h
  · cases h
  · next hnumber hstring htrue hfalse hnull =>
    exfalso
    unfold TokenKind.isLiteral at hk
    split at hk <;> simp_all

theorem literal_orderly {k : TokenKind} (hk : k.isLiteral = true) :
    Orderly tokens (· = k) (literal g) := by
  rintro s hs rfl
  cases hp : s.pending with
  | nil =>
      rw [kind_of_nil hp] at hk
      cases hk
  | cons t rest =>
      have ht : Token.SpelledIn tokens t := hs t (hp ▸ List.mem_cons_self)
      have hnext : s.lookahead g = t := by rw [ParseState.lookahead, hp]; rfl
      rw [ParseState.kind_of_cons hp] at hk
      cases hvalue : literal? (s.lookahead g) with
      | none =>
          rw [literal_of_none hvalue, hnext]
          rw [hnext] at hvalue
          obtain ⟨hnumber, v, hv, hfinite⟩ := number_of_literal?_none ht.2 hk hvalue
          exact .unexpectedLiteral ht.1 hnumber hv hfinite
      | some value =>
          have hne : t.kind ≠ .endOfInput := by
            intro hend
            rw [hend] at hk
            cases hk
          have heat : Orderly tokens (Fits t.kind) (eat g t.kind >>= fun _ => pure value) :=
            (Orderly.eat hne).bind fun _ => .pure _
          rw [literal_of_some hvalue, hnext]
          exact heat s hs (.inr (.inl (ParseState.kind_of_cons hp)))

theorem expressionExpected_orderly {starts : TokenKind → Prop} :
    Orderly tokens starts (expressionExpected g) := by
  intro s _ _
  cases hp : s.pending with
  | nil =>
      rw [expressionExpected_of_nil hp]
      exact .expressionAtEnd
  | cons t rest =>
      rw [expressionExpected_of_cons hp]
      exact .expressionExpected

theorem primary_orderly (h : Ordered g tokens calls) :
    Orderly tokens anyKind (primary g (run g calls)) := by
  refine .look fun k _ => ?_
  split
  · next hk => exact literal_orderly hk
  · split
    · exact condition_orderly h
    · exact Orderly.identifier.bind fun _ => .pure _
    · exact (Orderly.keyword _).here.bind fun _ => .pure _
    · exact (h.here .new).nested
    · exact expressionExpected_orderly

theorem new_orderly (h : Ordered g tokens calls) :
    Orderly tokens (· = .keyword .newWord) (new g (run g calls)) :=
  (Orderly.keyword _).here.bind fun _ => (h.anywhere .member (by decide)).bind fun _ =>
    (h.anywhere .arguments (by decide)).bind fun _ => .pure _

/-! ## The grammar -/

theorem body_orderly (h : Ordered g tokens calls) (p : Production) :
    Orderly tokens p.Enters (body g (run g calls) p) := by
  have hopening : ∀ k, p.opening ∉ vocabulary → p.Enters k → k = p.opening :=
    fun k hp hk => hk.resolve_left hp
  cases p with
  | statement => exact (statement_orderly h).weaken fun _ _ => trivial
  | block => exact (block_orderly h).weaken fun _ _ => trivial
  | variableStatement => exact (variableStatement_orderly h).weaken (hopening · (by decide))
  | declarations => exact (declarations_orderly h).weaken (hopening · (by decide))
  | declaration => exact (declaration_orderly h).weaken fun _ _ => trivial
  | ifStatement => exact (ifStatement_orderly h).weaken (hopening · (by decide))
  | whileStatement => exact (whileStatement_orderly h).weaken fun _ _ => trivial
  | doWhileStatement => exact (doWhileStatement_orderly h).weaken (hopening · (by decide))
  | forStatement => exact (forStatement_orderly h).weaken (hopening · (by decide))
  | functionDeclaration => exact (functionDeclaration_orderly h).weaken (hopening · (by decide))
  | returnStatement => exact (returnStatement_orderly h).weaken (hopening · (by decide))
  | classDeclaration => exact (classDeclaration_orderly h).weaken (hopening · (by decide))
  | expressionStatement => exact (expressionStatement_orderly h).weaken fun _ _ => trivial
  | assignment => exact (assignmentInside_orderly h).nested.weaken fun _ _ => trivial
  | binary min => exact (binary_orderly h min).weaken fun _ _ => trivial
  | unary => exact (unary_orderly h).weaken fun _ _ => trivial
  | callMember => exact (callMember_orderly h).weaken fun _ _ => trivial
  | member => exact (member_orderly h).weaken fun _ _ => trivial
  | arguments => exact (arguments_orderly h).weaken fun _ _ => trivial
  | primary => exact (primary_orderly h).weaken fun _ _ => trivial
  | new => exact (new_orderly h).weaken (hopening · (by decide))

/-- **Every production is orderly.** -/
theorem run_orderly (calls : Nat) : Ordered g tokens calls := by
  induction calls with
  | zero => exact fun p s _ _ => .outOfCalls
  | succ calls ih => exact body_orderly ih

end Grammar

theorem Program.parse_orderly : Orderly tokens anyKind (Program.parse g) :=
  (Grammar.statementsUntil_orderly (Grammar.run_orderly _) _).bind fun _ => .pure _

theorem regular_of_parse {limit : UInt32} {source : String} {e : SyntaxError}
    (h : parse limit source = .error (.grammar e)) :
    Regular (TokenStream.ofSource source).tokens (.failed (.grammar e)) := by
  rcases explains_of_parse h with ⟨fault, -, heq⟩ | ⟨-, s', herror, -⟩
  · cases heq
  · have hknows : (TokenStream.ofSource source).start.Knows
        (Token.SpelledIn (TokenStream.ofSource source).tokens) :=
      fun t ht => ⟨ht, TokenStream.ofSource_spelled source t ht⟩
    have hend :=
      Program.parse_orderly (g := (TokenStream.ofSource source).setting limit) _ hknows trivial
    rw [herror] at hend
    exact hend

/-! ## Failures of the scanner -/

namespace Scanner

/-- **Only a text with a character in it is ever classified**, wherever the scanner stands. -/
theorem rest_of_fails {s s' : Scanner} {e : ScanError} (h : s.next = (.error e, s')) :
    s'.rest ≠ [] ∧ e = if opensComment s'.rest then .unterminatedComment (UInt32.ofNat s'.position)
      else unmatched s'.rest s'.position := by
  fun_induction next s with
  | case1 => cases h
  | case2 s offset hs hc =>
      cases h
      rw [if_pos hc]
      exact ⟨mt List.isEmpty_iff.2 hs, rfl⟩
  | case3 s hs hc hr =>
      cases h
      rw [if_neg hc]
      exact ⟨mt List.isEmpty_iff.2 hs, rfl⟩
  | case4 s hs hc _ n hr ih => exact ih h
  | case5 => cases h

end Scanner

/-- **The errors of a source speak of few things.** Where another token stands, one of eight kinds
is called for, and never an operator of some family; at the end of the input, one of these, a
closing brace or an expression. Only a number that is not finite has no value as a literal. And the
scanner never has to say what is wrong with the empty text. -/
theorem parse_error_vocabulary (limit : UInt32) (source : String) :
    (∀ found expected span,
      parse limit source = .error (.grammar (.unexpectedToken found expected span)) →
      (∃ k, expected = .token k) ∧
        expected.name ∈
          [";", '{'.toString, "(", ")", "]", "while", "IDENTIFIER", "SIMPLE_ASSIGN"]) ∧
    (∀ expected offset,
      parse limit source = .error (.grammar (.unexpectedEnd expected offset)) →
      (expected = .expression ∨ ∃ k, expected = .token k) ∧
        expected.name ∈
          [";", '{'.toString, "(", ")", "]", "while", "IDENTIFIER", "SIMPLE_ASSIGN", '}'.toString,
            "expression"]) ∧
    (∀ found span,
      parse limit source = .error (.grammar (.unexpectedLiteral found span)) →
      ∃ t ∈ (TokenStream.ofSource source).tokens, t.kind = .number ∧ t.text = found ∧
        t.span = span ∧ ∃ v, Binary64.ofText? t.text = some v ∧ v.isFinite = false) ∧
    (∀ (s s' : Scanner) (e : ScanError), s.next = (.error e, s') →
      s'.rest ≠ [] ∧ e =
        if Scanner.opensComment s'.rest then .unterminatedComment (UInt32.ofNat s'.position)
        else Scanner.unmatched s'.rest s'.position) := by
  refine ⟨fun found expected span h => ?_, fun expected offset h => ?_, fun found span h => ?_,
    fun s s' e h => Scanner.rest_of_fails h⟩
  · have hnames : ∀ k ∈ vocabulary, k.name ∈
        [";", '{'.toString, "(", ")", "]", "while", "IDENTIFIER", "SIMPLE_ASSIGN"] := by decide
    cases regular_of_parse h with
    | unexpectedToken hk => exact ⟨⟨_, rfl⟩, hnames _ hk⟩
  · have hnames : ∀ k ∈ TokenKind.delimiter .closeBrace :: vocabulary, k.name ∈
        [";", '{'.toString, "(", ")", "]", "while", "IDENTIFIER", "SIMPLE_ASSIGN", '}'.toString,
          "expression"] := by decide
    cases regular_of_parse h with
    | unexpectedEnd hk => exact ⟨.inr ⟨_, rfl⟩, hnames _ (List.mem_cons.2 hk.symm)⟩
    | expressionAtEnd => exact ⟨.inl rfl, by decide⟩
  · cases regular_of_parse h with
    | unexpectedLiteral ht hk hv hfinite => exact ⟨_, ht, hk, rfl, rfl, _, hv, hfinite⟩

/-- A block that is not closed is missed only at the end of the input. -/
theorem parse_error_vocabulary_brace :
    parse 8 (String.ofList ['{', ';']) =
        .error (.grammar (.unexpectedEnd (.token (.delimiter .closeBrace)) 2)) ∧
      (Expectation.token (.delimiter .closeBrace)).name ∈
        [";", '{'.toString, "(", ")", "]", "while", "IDENTIFIER", "SIMPLE_ASSIGN", '}'.toString,
          "expression"] := by
  have hstream : TokenStream.ofSource (String.ofList ['{', ';']) =
      ⟨[⟨.delimiter .openBrace, '{'.toString, ⟨0, 1⟩⟩, ⟨.delimiter .semicolon, ";", ⟨1, 1⟩⟩],
        .complete 2⟩ := by
    decide +kernel
  have herror : parse 8 (String.ofList ['{', ';']) =
      .error (.grammar (.unexpectedEnd (.token (.delimiter .closeBrace)) 2)) := by
    rw [parse_eq_outcome, hstream]
    rfl
  exact ⟨herror, ((parse_error_vocabulary 8 (String.ofList ['{', ';'])).2.1 _ _ herror).2⟩

end LetterLang

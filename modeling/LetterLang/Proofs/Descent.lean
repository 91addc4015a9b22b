import LetterLang.Proofs.Failure

/-!
# Descent

A production calls other productions, and those call others again. Each such call is made behind
tokens that have been consumed since the production was entered, or else it is a call of a
production that stands lower in a fixed order. Nothing here depends on the limit on nesting.

Which calls a production makes is seen from what it depends on. The grammar is a function of the
calls, so two families of calls are compared: a production can only do something else under the
second one if a call that it makes does something else.

- `ParseState.Eats`: a number of tokens are consumed one after another. This is all that a parse
  ever does to its tokens.
- `Production.rank`: the order of the productions.
- `Parse.Descends`: a step does the same under both families of calls, unless a call behind some
  tokens or of a lower production differs.
- `Grammar.body_descends`: so it is for every production, with its own rank as the bound.
-/

namespace LetterLang

open Parse
open Production (Calls)
open Grammar (produce advances_produce)

variable {g : Setting} {call' : Calls} {s s' s'' : ParseState} {n n' bound bound' : Nat} {c : Bool}
  {α β : Type}

/-! ## Tokens consumed one after another -/

/-- From `s` on `n` tokens are consumed, one after another, and the state is then `s'`, but for its
level of nesting. -/
inductive ParseState.Eats (g : Setting) : Nat → ParseState → ParseState → Prop
  | none {s depth} : Eats g 0 s { s with depth := depth }
  | next {n s k t s₁ s'} : eat g k s = .ok t s₁ → Eats g n s₁ s' → Eats g (n + 1) s s'

namespace ParseState

/-- The tokens that are consumed are the next ones, and none of them comes back. Behind the last
token lies a place that can be scanned. -/
theorem eats_iff : s.Eats g n s' ↔ ∃ used, used.length = n ∧ s.pending = used ++ s'.pending ∧
    s'.consumed = used.reverse ++ s.consumed ∧ (used ≠ [] → s'.pending = [] → g.Complete) := by
  constructor
  · intro h
    induction h with
    | none => exact ⟨[], rfl, rfl, rfl, absurd rfl⟩
    | next heat _ ih =>
        obtain ⟨rest, hp, -, hrest, rfl⟩ := eat_eq_ok.1 heat
        obtain ⟨used, rfl, rfl, hconsumed, hcomplete⟩ := ih
        refine ⟨_ :: used, rfl, hp, ?_, fun _ hnil => ?_⟩
        · rw [hconsumed, List.reverse_cons, List.append_assoc]
          rfl
        · by_cases hused : used = []
          · exact hrest (List.append_eq_nil_iff.2 ⟨hused, hnil⟩)
          · exact hcomplete hused hnil
  · rintro ⟨used, rfl, hp, hconsumed, hcomplete⟩
    induction used generalizing s with
    | nil =>
        obtain ⟨pending, consumed, depth⟩ := s'
        obtain rfl : s.pending = pending := hp
        obtain rfl : consumed = s.consumed := hconsumed
        exact .none
    | cons t used ih =>
        have hrest : used ++ s'.pending = [] → g.Complete := fun h =>
          hcomplete (List.cons_ne_nil _ _) (List.append_eq_nil_iff.1 h).2
        refine .next (eat_of_cons hp hrest) (ih rfl ?_ fun _ => hcomplete (List.cons_ne_nil _ _))
        rw [hconsumed, List.reverse_cons, List.append_assoc]
        rfl

namespace Eats

theorem trans (h : s.Eats g n s') (h' : s'.Eats g n' s'') : s.Eats g (n + n') s'' := by
  obtain ⟨used, rfl, hp, hconsumed, hcomplete⟩ := eats_iff.1 h
  obtain ⟨used', rfl, hp', hconsumed', hcomplete'⟩ := eats_iff.1 h'
  refine eats_iff.2 ⟨used ++ used', List.length_append, ?_, ?_, fun hne hnil => ?_⟩
  · rw [hp, hp', List.append_assoc]
  · rw [hconsumed', hconsumed, List.reverse_append, List.append_assoc]
  · by_cases hused' : used' = []
    · subst hused'
      exact hcomplete (by simpa using hne) (hp'.trans hnil)
    · exact hcomplete' hused' hnil

theorem length_eq (h : s.Eats g n s') : n + s'.pending.length = s.pending.length := by
  obtain ⟨used, rfl, hp, -⟩ := eats_iff.1 h
  rw [hp, List.length_append]

theorem of_depth {depth : Nat} (h : ({ s with depth := depth } : ParseState).Eats g n s') :
    s.Eats g n s' := by
  obtain ⟨used, hused⟩ := eats_iff.1 h
  exact eats_iff.2 ⟨used, hused⟩

end Eats

/-- What a step does to its state is to consume tokens. -/
theorem Reaches.eats (h : s.Reaches g c s') : ∃ n, s.Eats g n s' ∧ (c = true → 0 < n) := by
  obtain ⟨⟨-, used, hp, hconsumed, hne⟩, hcomplete⟩ := h
  refine ⟨used.length, eats_iff.2 ⟨used, rfl, hp, hconsumed, fun hused => hcomplete fun hnil => ?_⟩,
    fun hc => List.length_pos_iff.2 (hne hc)⟩
  rw [hp] at hnil
  exact absurd (List.append_eq_nil_iff.1 hnil).1 hused

end ParseState

/-! ## The order of productions -/

/-- The place of a production in the order: before a token has been consumed, a production calls
only lower ones. The lowest ones start with a token. -/
def Production.rank : Production → Nat
  | .block | .declarations | .declaration | .ifStatement | .whileStatement | .doWhileStatement
  | .forStatement | .functionDeclaration | .returnStatement | .classDeclaration | .arguments
  | .new => 0
  | .primary | .variableStatement => 1
  | .member => 2
  | .callMember => 3
  | .unary => 4
  | .binary _ => 5
  | .assignment => 6
  | .expressionStatement => 7
  | .statement => 8

def Production.ranks : Nat :=
  9

theorem Production.rank_lt (p : Production) : p.rank < ranks := by
  cases p <;> simp [rank, ranks]

/-! ## Calls that differ -/

namespace Parse

/-- Behind the state `s` lies a call that is not the one of the parse: behind a token, or of a
production below `bound`. -/
def DiffersAfter (g : Setting) (call' : Calls) (bound : Nat) (s : ParseState) : Prop :=
  ∃ n q s', s.Eats g n s' ∧ (0 < n ∨ q.rank < bound) ∧ produce g q s' ≠ call' q s'

/-- The second step, with other calls, does what the first one does with those of the parse, unless
one of the calls behind its state differs. So until a token is consumed the step calls only
productions below `bound`. -/
def Descends (g : Setting) (call' : Calls) (bound : Nat) (m m' : Parse α) : Prop :=
  ∀ s, m s = m' s ∨ DiffersAfter g call' bound s

theorem DiffersAfter.of_eats (h : s.Eats g n s') (hdiffers : DiffersAfter g call' bound' s')
    (hbound : 0 < n ∨ bound' ≤ bound) : DiffersAfter g call' bound s := by
  obtain ⟨n', q, s'', h', hq, hne⟩ := hdiffers
  refine ⟨n + n', q, s'', h.trans h', ?_, hne⟩
  omega

namespace Descends

variable {m m' : Parse α}

theorem refl (m : Parse α) : Descends g call' bound m m :=
  fun _ => .inl rfl

/-- The rest of a composed step may make any call if the first part consumes a token. -/
theorem bind_of {f f' : α → Parse β} (hm : Descends g call' bound m m')
    (haccounts : Accounts g (fun _ => True) c m) (hbound : c = true ∨ bound' ≤ bound)
    (hf : ∀ s a s', m s = .ok a s' → f a s' = f' a s' ∨ DiffersAfter g call' bound' s') :
    Descends g call' bound (m >>= f) (m' >>= f') := by
  intro s
  rcases hm s with heq | hdiffers
  · cases h : m s with
    | error e s' =>
        rw [bind_of_error h, bind_of_error (heq ▸ h)]
        exact .inl rfl
    | ok a s' =>
        rw [bind_of_ok h, bind_of_ok (heq ▸ h)]
        obtain ⟨n, heats, hn⟩ := (haccounts.ok (fun _ _ => trivial) h).eats
        exact (hf s a s' h).imp_right fun hdiffers => hdiffers.of_eats heats (hbound.imp_left hn)
  · exact .inr hdiffers

theorem bind {f f' : α → Parse β} (hm : Descends g call' bound m m')
    (haccounts : Accounts g (fun _ => True) c m) (hbound : c = true ∨ bound' ≤ bound)
    (hf : ∀ a, Descends g call' bound' (f a) (f' a)) :
    Descends g call' bound (m >>= f) (m' >>= f') :=
  hm.bind_of haccounts hbound fun _ a s' _ => hf a s'

theorem look {f f' : TokenKind → Parse β} (hf : ∀ k, Descends g call' bound (f k) (f' k)) :
    Descends g call' bound (kind >>= f) (kind >>= f') :=
  fun s => hf s.kind s

theorem call (p : Production) (hp : p.rank < bound) :
    Descends g call' bound (produce g p) (call' p) := by
  intro s
  by_cases heq : produce g p s = call' p s
  · exact .inl heq
  · exact .inr ⟨0, p, s, .none, .inr hp, heq⟩

theorem nested (hm : Descends g call' bound m m') :
    Descends g call' bound (Parse.nested g m) (Parse.nested g m') := by
  intro s
  by_cases hd : g.limit.toNat ≤ s.depth
  · rw [nested_of_le hd, nested_of_le hd]
    exact .inl rfl
  · have hd : s.depth < g.limit.toNat := Nat.lt_of_not_le hd
    rw [nested_of_lt hd, nested_of_lt hd]
    rcases hm { s with depth := s.depth + 1 } with heq | ⟨n, q, s', heats, hq, hne⟩
    · rw [heq]
      exact .inl rfl
    · exact .inr ⟨n, q, s', heats.of_depth, hq, hne⟩

theorem whileKind {more : TokenKind → Bool} {f f' : α → TokenKind → Parse α}
    (hf : ∀ a k, more k = true → Descends g call' bound (f a k) (f' a k))
    (haccounts : ∀ a k, more k = true → Accounts g (fun _ => True) false (f a k)) (a : α) :
    Descends g call' bound (Parse.whileKind more (fun a => kind >>= f a) a)
      (Parse.whileKind more (fun a => kind >>= f' a) a) := by
  have rounds : ∀ (fuel : List Token) (a : α),
      Descends g call' bound (repeatWhile more (fun a => kind >>= f a) fuel a)
        (repeatWhile more (fun a => kind >>= f' a) fuel a) := by
    intro fuel
    induction fuel with
    | nil => exact fun a => refl _
    | cons t fuel ih =>
        intro a s
        rw [repeatWhile_cons, repeatWhile_cons]
        by_cases hm : more s.kind = true
        · rw [if_pos hm, if_pos hm]
          have hround : Descends g call' bound (f a s.kind) (f' a s.kind) := hf a s.kind hm
          exact hround.bind (haccounts a s.kind hm) (.inr (Nat.le_refl _)) ih s
        · rw [if_neg hm, if_neg hm]
          exact .inl rfl
  exact fun s => rounds s.pending a s

end Descends

end Parse

/-! ## Steps that are built alike -/

section Alike

variable {hcall : ∀ p, Advances true (call' p)} {h : Nat} {b : Bool} {m m' : Parse α}

theorem Alike.accounts_produce
    (hm : Alike (.ofCalls g (produce g) call' (advances_produce g) hcall) h b c m m') :
    Accounts g (fun _ => True) c m := by
  have hknown : (TwoRuns.ofCalls g (produce g) call' (advances_produce g) hcall).Known =
      fun _ => True := by
    funext t
    exact eq_true ⟨t, rfl⟩
  have haccounts := hm.accounts fun p => Grammar.run_accounts _ p
  rwa [hknown] at haccounts

/-- **A step depends only on the calls that lie behind its state.** -/
theorem Alike.descends
    (hm : Alike (.ofCalls g (produce g) call' (advances_produce g) hcall) h b c m m') :
    Descends g call' Production.ranks m m' := by
  induction hm with
  | pure a => exact .refl _
  | bind hm _ ihm ihf => exact ihm.bind hm.accounts_produce (.inr (Nat.le_refl _)) ihf
  | look _ ih => exact .look ih
  | literal _ ih =>
      refine .look fun k => ?_
      split
      · exact .refl _
      · exact ih k
  | eat k _ ih =>
      have heat : Descends g call' Production.ranks (Parse.eat g k) (Parse.eat g k) := .refl _
      refine heat.bind_of (.eat k) (.inr (Nat.le_refl _)) fun s t s' h => ?_
      obtain ⟨-, -, hkind, -⟩ := eat_eq_ok.1 h
      exact ih t t rfl hkind s'
  | nested _ ih => exact ih.nested
  | call p _ => exact .call p p.rank_lt
  | loop _ _ _ hf ih => exact .whileKind ih (fun a k hk => (hf a k hk).accounts_produce) _
  | noExpression => exact .refl _
  | noOperator htu _ =>
      obtain rfl := htu
      exact .refl _
  | noTarget htu _ =>
      obtain rfl := htu
      exact .refl _

end Alike

/-! ## Steps that come first -/

namespace Parse

variable {m m' : Parse α}

theorem Accounts.discard_eat (k : TokenKind) :
    Accounts g (fun _ => True) true (discard (Parse.eat g k)) := by
  rw [discard_eq_bind]
  exact (Accounts.eat k).bind fun _ => .pure ()

namespace Descends

/-- Behind a call, a production may make any call. -/
theorem behind_call (p : Production) (hp : p.rank < bound) {f f' : p.Result → Parse β}
    (hf : ∀ a, Descends g call' Production.ranks (f a) (f' a)) :
    Descends g call' bound (produce g p >>= f) (call' p >>= f') :=
  (Descends.call p hp).bind (Grammar.run_accounts _ p) (.inl rfl) hf

theorem behind_eat (k : TokenKind) {f f' : Token → Parse β}
    (hf : ∀ t, t.kind = k → Descends g call' Production.ranks (f t) (f' t)) :
    Descends g call' bound (Parse.eat g k >>= f) (Parse.eat g k >>= f') := by
  have heat : Descends g call' bound (Parse.eat g k) (Parse.eat g k) := .refl _
  have hrest : ∀ s t s', Parse.eat g k s = .ok t s' →
      f t s' = f' t s' ∨ DiffersAfter g call' Production.ranks s' := by
    intro s t s' h
    obtain ⟨-, -, hkind, -⟩ := eat_eq_ok.1 h
    exact hf t hkind s'
  exact heat.bind_of (.eat k) (.inl rfl) hrest

theorem behind_discard (k : TokenKind) {f f' : Unit → Parse β}
    (hf : ∀ u, Descends g call' Production.ranks (f u) (f' u)) :
    Descends g call' bound (discard (Parse.eat g k) >>= f) (discard (Parse.eat g k) >>= f') :=
  (refl (discard (Parse.eat g k))).bind (.discard_eat k) (.inl rfl) hf

theorem behind_delimiter (d : Delimiter) {f f' : Unit → Parse β}
    (hf : ∀ u, Descends g call' Production.ranks (f u) (f' u)) :
    Descends g call' bound (Parse.delimiter g d >>= f) (Parse.delimiter g d >>= f') :=
  .behind_discard _ hf

theorem behind_keyword (k : Keyword) {f f' : Unit → Parse β}
    (hf : ∀ u, Descends g call' Production.ranks (f u) (f' u)) :
    Descends g call' bound (Parse.keyword g k >>= f) (Parse.keyword g k >>= f') :=
  .behind_discard _ hf

theorem behind_identifier {f f' : String → Parse β}
    (hf : ∀ name, Descends g call' Production.ranks (f name) (f' name)) :
    Descends g call' bound (Parse.identifier g >>= f) (Parse.identifier g >>= f') := by
  have hname : Accounts g (fun _ => True) true (Parse.identifier g) :=
    (Accounts.eat _).bind fun t => .pure t.text
  exact (refl (Parse.identifier g)).bind hname (.inl rfl) hf

end Descends

end Parse

/-! ## Productions that start with another one -/

namespace Grammar

theorem statementOf_descends (k : TokenKind) :
    Descends g call' (Production.rank .statement) (statementOf g (produce g) k)
      (statementOf g call' k) := by
  unfold statementOf
  split
  · exact .refl _
  · exact .behind_call .block (by decide) fun _ => .refl _
  · exact .call .variableStatement (by decide)
  · exact .call .ifStatement (by decide)
  · exact .call .whileStatement (by decide)
  · exact .call .doWhileStatement (by decide)
  · exact .call .forStatement (by decide)
  · exact .call .functionDeclaration (by decide)
  · exact .call .classDeclaration (by decide)
  · exact .call .returnStatement (by decide)
  · exact .call .expressionStatement (by decide)

theorem statement_descends : Descends g call' (Production.rank .statement)
    (statement g (produce g)) (statement g call') :=
  .nested (.look statementOf_descends)

theorem variableStatement_descends : Descends g call' (Production.rank .variableStatement)
    (variableStatement g (produce g)) (variableStatement g call') :=
  .behind_call .declarations (by decide) fun _ => .refl _

theorem expressionStatement_descends : Descends g call' (Production.rank .expressionStatement)
    (expressionStatement g (produce g)) (expressionStatement g call') :=
  .behind_call .assignment (by decide) fun _ => .refl _

/-- The right side of an assignment stands behind its operator. -/
theorem assignment_descends : Descends g call' (Production.rank .assignment)
    (assignment g (produce g)) (assignment g call') := by
  refine .nested (.behind_call (.binary .loosest) (by decide) fun left => .look fun k => ?_)
  split
  · refine .behind_eat k fun t _ => ?_
    cases AssignOp.ofSymbol? t.text with
    | none => exact .refl _
    | some op =>
        cases left with
        | identifier name => exact .behind_call .assignment (by decide) fun _ => .refl _
        | member object property computed =>
            exact .behind_call .assignment (by decide) fun _ => .refl _
        | _ => exact .refl _
  · exact .refl _

theorem unary_descends :
    Descends g call' (Production.rank .unary) (unary g (produce g)) (unary g call') := by
  refine .look fun k => ?_
  split
  · refine .behind_eat k fun t _ => ?_
    cases UnaryOp.ofSymbol? t.text with
    | none => exact .refl _
    | some op =>
        have hoperand : Descends g call' Production.ranks (nested g (produce g .unary))
            (nested g (call' .unary)) := .nested (.call .unary (by decide))
        exact hoperand.bind (run_accounts _ _).nested (.inr (Nat.le_refl _)) fun _ => .refl _
  · exact .call .callMember (by decide)

/-! ## Productions with tokens or loops

What stands behind their first step is built alike with both families of calls, so `Alike.descends`
says all there is to say about it. -/

section Rest

abbrev besides (g : Setting) (call' : Calls) (hcall : ∀ p, Advances true (call' p)) : TwoRuns :=
  .ofCalls g (produce g) call' (advances_produce g) hcall

variable (hcall : ∀ p, Advances true (call' p))

include hcall

theorem rest_descends {m m' : Parse α}
    (hm : Alike (besides g call' hcall) Production.maxHeight true false m m') :
    Descends g call' Production.ranks m m' :=
  hm.descends

theorem block_descends : Descends g call' bound (block g (produce g)) (block g call') :=
  .behind_delimiter _ fun _ => rest_descends hcall <|
    .bind (statementsUntil_alike _ (by decide)) fun _ => .bind (.delimiter _) fun _ => .pure _

theorem declarations_descends :
    Descends g call' bound (declarations g (produce g)) (declarations g call') :=
  .behind_keyword _ fun _ => rest_descends hcall <|
    .commaSeparated (advances_produce g _) (hcall _) fun _ _ => .call .declaration (by decide)

theorem declaration_descends :
    Descends g call' bound (declaration g (produce g)) (declaration g call') := by
  refine .behind_identifier fun name => rest_descends hcall <| .look fun k => ?_
  split
  · exact .pure _
  · exact .pure _
  · exact .bind (.discard_eat _) fun _ => .bind (.call .assignment (by decide)) fun _ => .pure _

theorem ifStatement_descends :
    Descends g call' bound (ifStatement g (produce g)) (ifStatement g call') := by
  refine .behind_keyword _ fun _ => rest_descends hcall <|
    .bind (condition_alike (by decide)) fun test => .bind (.call .statement (by decide))
      fun consequent => .look fun k => ?_
  split
  · exact .bind (.keyword _) fun _ => .bind (.call .statement (by decide)) fun _ => .pure _
  · exact .pure _

theorem whileStatement_descends :
    Descends g call' bound (whileStatement g (produce g)) (whileStatement g call') :=
  .behind_keyword _ fun _ => rest_descends hcall <|
    .bind (condition_alike (by decide)) fun _ => .bind (.call .statement (by decide)) fun _ =>
      .pure _

theorem doWhileStatement_descends :
    Descends g call' bound (doWhileStatement g (produce g)) (doWhileStatement g call') :=
  .behind_keyword _ fun _ => rest_descends hcall <|
    .bind (.call .statement (by decide)) fun _ => .bind (.keyword _) fun _ =>
      .bind (condition_alike (by decide)) fun _ => .bind (.delimiter _) fun _ => .pure _

theorem forStatement_descends :
    Descends g call' bound (forStatement g (produce g)) (forStatement g call') :=
  .behind_keyword _ fun _ => rest_descends hcall <|
    .bind (.delimiter _) fun _ => .bind (forInit_alike (by decide)) fun _ =>
      .bind (.delimiter _) fun _ => .bind (expressionUnless_alike _ (by decide)) fun _ =>
        .bind (.delimiter _) fun _ => .bind (expressionUnless_alike _ (by decide)) fun _ =>
          .bind (.delimiter _) fun _ => .bind (.call .statement (by decide)) fun _ => .pure _

theorem functionDeclaration_descends :
    Descends g call' bound (functionDeclaration g (produce g)) (functionDeclaration g call') :=
  .behind_keyword _ fun _ => rest_descends hcall <|
    .bind .identifier fun _ => .bind (.delimiter _) fun _ => .bind parameters_alike fun _ =>
      .bind (.delimiter _) fun _ => .bind (.call .block (by decide)) fun _ => .pure _

theorem returnStatement_descends :
    Descends g call' bound (returnStatement g (produce g)) (returnStatement g call') :=
  .behind_keyword _ fun _ => rest_descends hcall <|
    .bind (expressionUnless_alike _ (by decide)) fun _ => .bind (.delimiter _) fun _ => .pure _

theorem classDeclaration_descends :
    Descends g call' bound (classDeclaration g (produce g)) (classDeclaration g call') :=
  .behind_keyword _ fun _ => rest_descends hcall <|
    .bind .identifier fun _ => .bind superclass_alike fun _ =>
      .bind (.call .block (by decide)) fun _ => .pure _

theorem binary_descends (min : BinaryLevel) : Descends g call' (Production.binary min).rank
    (binary g (produce g) min) (binary g call' min) := by
  refine .behind_call .unary (Nat.lt_succ_self _) fun first => ?_
  have hrounds : Alike (besides g call' hcall) (Production.binary min).height true false
      (whileKind min.admits (binaryStep g (produce g)) first)
      (whileKind min.admits (binaryStep g call') first) := binaryRounds_alike min first
  exact hrounds.descends

theorem callMember_descends : Descends g call' (Production.rank .callMember)
    (callMember g (produce g)) (callMember g call') := by
  refine .look fun k => ?_
  split
  · exact .behind_keyword _ fun _ => rest_descends hcall (callTail_alike _ (by decide))
  · refine .behind_call .member (by decide) fun callee => rest_descends hcall <| .look fun k => ?_
    split
    · exact callTail_alike _ (by decide)
    · exact .pure _

theorem member_descends :
    Descends g call' (Production.rank .member) (member g (produce g)) (member g call') :=
  .behind_call .primary (by decide) fun object =>
    rest_descends hcall (memberRounds_alike object (by decide))

theorem arguments_descends :
    Descends g call' bound (arguments g (produce g)) (arguments g call') := by
  refine .behind_delimiter _ fun _ => rest_descends hcall <| .look fun k => ?_
  split
  · exact .bind (.pure _) fun _ => .bind (.delimiter _) fun _ => .pure _
  · exact .bind (.commaSeparated (advances_produce g _) (hcall _)
      fun _ _ => .call .assignment (by decide)) fun _ => .bind (.delimiter _) fun _ => .pure _

theorem primary_descends :
    Descends g call' (Production.rank .primary) (primary g (produce g)) (primary g call') := by
  refine .look fun k => ?_
  split
  · exact .refl _
  · split
    · exact .behind_delimiter _ fun _ => rest_descends hcall <|
        .bind (.call .assignment (by decide)) fun _ => .bind (.delimiter _) fun _ => .pure _
    · exact .refl _
    · exact .refl _
    · exact .nested (.call .new (by decide))
    · exact .refl _

theorem new_descends : Descends g call' bound (new g (produce g)) (new g call') :=
  .behind_keyword _ fun _ => rest_descends hcall <|
    .bind (.call .member (by decide)) fun _ => .bind (.call .arguments (by decide)) fun _ =>
      .pure _

/-- **Productions descend.** With other calls a production does what it does in the parse, unless a
call behind a token that it has consumed differs, or a call of a production that is lower than
itself. -/
theorem body_descends : ∀ p, Descends g call' p.rank (body g (produce g) p) (body g call' p)
  | .statement => statement_descends
  | .block => block_descends hcall
  | .variableStatement => variableStatement_descends
  | .declarations => declarations_descends hcall
  | .declaration => declaration_descends hcall
  | .ifStatement => ifStatement_descends hcall
  | .whileStatement => whileStatement_descends hcall
  | .doWhileStatement => doWhileStatement_descends hcall
  | .forStatement => forStatement_descends hcall
  | .functionDeclaration => functionDeclaration_descends hcall
  | .returnStatement => returnStatement_descends hcall
  | .classDeclaration => classDeclaration_descends hcall
  | .expressionStatement => expressionStatement_descends
  | .assignment => assignment_descends
  | .binary min => binary_descends hcall min
  | .unary => unary_descends
  | .callMember => callMember_descends hcall
  | .member => member_descends hcall
  | .arguments => arguments_descends hcall
  | .primary => primary_descends hcall
  | .new => new_descends hcall

end Rest

end Grammar

end LetterLang

import LetterLang.Proofs.Climbing

/-!
# Input that goes on

A parse succeeds, and then it turns out that its tokens were not all: more of them follow. Up to the
last token but one nothing can be different, since a production looks at the next token only. A
statement ends with a token of its own, so it does not look behind its end either. The one exception
is an `if` without an `else`, which an `else` would continue.

So the longer parse has the same statements, and goes on from there; but if what follows cannot be
scanned, it fails in place of consuming the last token.

- `ParseState.GoesOn`: the tokens of a state are those of another one, and more.
- `Parse.Persists`: what a step has found is also found in the longer parse. Where it does not
  close, a token must be left after it.
- `Alike.persists`: steps that are built alike persist.
- `Grammar.run_persists`: statements persist up to the end of the shorter input.
- `Program.parse_goesOn`: so do programs.
-/

namespace LetterLang

open Parse

/-! ## States and outcomes -/

/-- A parse and a longer one: the tokens `rest` come after those of the first, and do not start with
an `else`. -/
structure Prolongation where
  left : Setting
  right : Setting
  rest : List Token
  limit_eq : left.limit = right.limit
  not_else : ∀ t ∈ rest.head?, t.kind ≠ .keyword .elseWord

variable {L : Prolongation} {calls : Nat} {α β : Type}

/-- The second state has the tokens of the first one and then those that come after them, and the
next of them has been scanned. -/
structure ParseState.GoesOn (L : Prolongation) (s s' : ParseState) : Prop where
  depth : s.depth = s'.depth
  pending : s'.pending = s.pending ++ L.rest
  scanned : s.pending = [] → L.rest = [] → L.right.Complete

namespace ParseState

variable {s s' : ParseState}

theorem GoesOn.kind_eq (h : s.GoesOn L s') (hne : s.pending ≠ []) : s'.kind = s.kind := by
  obtain ⟨t, tail, ht⟩ := List.exists_cons_of_ne_nil hne
  rw [ParseState.kind, h.pending, ht, ParseState.kind, ht]
  rfl

/-- A state without tokens leads to no state with tokens. -/
theorem Leads.pending_of_nil {c : Bool} (h : s.Leads c s') (hnil : s.pending = []) :
    s'.pending = [] := by
  obtain ⟨used, hp, -⟩ := h.tokens
  rw [hnil] at hp
  exact (List.append_eq_nil_iff.1 hp.symm).2

theorem Leads.pending_ne_nil {c : Bool} (h : s.Leads c s') (hleft : c = false → s'.pending ≠ []) :
    s.pending ≠ [] := by
  intro hnil
  cases c with
  | false => exact hleft rfl (h.pending_of_nil hnil)
  | true => exact Nat.not_lt_zero _ (List.length_eq_zero_iff.2 hnil ▸ h.length_lt)

end ParseState

namespace Parse

/-- The outcome of the longer parse, where the shorter one has the result `a` and comes to the
state `s`: the same result, or no token can be scanned after the last one. -/
inductive Persisted (L : Prolongation) (a : α) (s : ParseState) :
    EStateM.Result Stop ParseState α → Prop
  | ok {s' : ParseState} : s.GoesOn L s' → Persisted L a s (.ok a s')
  | fault {e : ScanError} {s' : ParseState} : s.pending = [] → L.rest = [] →
      L.right.ending = .fault e → Persisted L a s (.error (.failed (.scan e)) s')

/-- Wherever the step `m` succeeds, its result persists in the longer parse, where the step is
`m'`. A step that is not `closing` may look at the token behind it, so one must be left. -/
structure Persists (L : Prolongation) (closing consumes : Bool)
    (m m' : Parse α) : Prop where
  advances : Advances consumes m
  persisted : ∀ {s s' a s₁}, s.GoesOn L s' → m s = .ok a s₁ →
    (closing = false → s₁.pending ≠ []) → Persisted L a s₁ (m' s')

variable {c c' d d' : Bool} {m m' : Parse α}

theorem Persisted.bind {f' : α → Parse β} {a : α} {b : β} {s' s₁ s₂ : ParseState}
    (h : Persisted L a s₁ (m' s')) (hlead : s₁.Leads d s₂)
    (hf : ∀ s₁', s₁.GoesOn L s₁' → Persisted L b s₂ (f' a s₁')) :
    Persisted L b s₂ ((m' >>= f') s') := by
  generalize hrun : m' s' = r at h
  cases h with
  | ok h₁ =>
      rw [bind_of_ok hrun]
      exact hf _ h₁
  | fault hnil hrest he =>
      rw [bind_of_error hrun]
      exact .fault (hlead.pending_of_nil hnil) hrest he

namespace Persists

theorem weaken (hm : Persists L c d m m') (hc : c' = true → c = true)
    (hd : d' = true → d = true) : Persists L c' d' m m' := by
  refine ⟨hm.advances.weaken hd, fun h hok hleft => hm.persisted h hok fun hopen => hleft ?_⟩
  cases c' with
  | false => rfl
  | true => cases (hc rfl).symm.trans hopen

theorem of_fails (hm : ∀ s a s', m s ≠ .ok a s') : Persists L c d m m' :=
  ⟨.of_fails hm, fun _ hok => absurd hok (hm _ _ _)⟩

theorem pure (a : α) : Persists L c false (Pure.pure a : Parse α) (Pure.pure a) := by
  refine ⟨.pure a, fun h hok _ => ?_⟩
  obtain ⟨rfl, rfl⟩ := pure_eq_ok.1 hok
  exact .ok h

theorem bind {f f' : α → Parse β} (hm : Persists L c d m m')
    (hf : ∀ a, Persists L c d' (f a) (f' a)) :
    Persists L c d (m >>= f) (m' >>= f') := by
  refine ⟨hm.advances.bind fun a => (hf a).advances, fun h hok hleft => ?_⟩
  obtain ⟨a, s₁, h₁, h₂⟩ := bind_eq_ok.1 hok
  have hlead := (hf a).advances _ _ _ h₂
  refine Persisted.bind (hm.persisted h h₁ ?_) hlead fun s₁' h' => (hf a).persisted h' h₂ hleft
  intro hc hnil
  exact hleft hc (hlead.pending_of_nil hnil)

/-- What comes after a step closes it, if it consumes a token. -/
theorem before {f f' : α → Parse β} (hm : Persists L false d m m')
    (hf : ∀ a, Persists L true true (f a) (f' a)) :
    Persists L true true (m >>= f) (m' >>= f') := by
  constructor
  · intro s b s₂ hok
    obtain ⟨a, s₁, h₁, h₂⟩ := bind_eq_ok.1 hok
    obtain ⟨hd, used, hp, hconsumed, -⟩ := hm.advances _ _ _ h₁
    obtain ⟨hd', used', hp', hconsumed', hne⟩ := (hf a).advances _ _ _ h₂
    refine ⟨hd'.trans hd, used ++ used', ?_, ?_, ?_⟩
    · rw [hp, hp', List.append_assoc]
    · rw [hconsumed', hconsumed, List.reverse_append, List.append_assoc]
    · intro _
      exact List.append_ne_nil_of_right_ne_nil _ (hne rfl)
  · intro s s' b s₂ h hok hleft
    obtain ⟨a, s₁, h₁, h₂⟩ := bind_eq_ok.1 hok
    have hlead := (hf a).advances _ _ _ h₂
    refine Persisted.bind (hm.persisted h h₁ fun _ => hlead.pending_ne_nil nofun) hlead ?_
    intro s₁' h'
    exact (hf a).persisted h' h₂ hleft

/-- Both parses see the next token, if one is consumed or left. -/
theorem look {f f' : TokenKind → Parse β} (hcd : c = true → d = true)
    (hf : ∀ k, Persists L c d (f k) (f' k)) :
    Persists L c d (kind >>= f) (kind >>= f') := by
  refine ⟨.kind_bind fun k => (hf k).advances, fun {s s' b s₁} h hok hleft => ?_⟩
  rw [kind_bind] at hok
  have hne : s.pending ≠ [] := by
    refine ((hf s.kind).advances _ _ _ hok).pending_ne_nil fun hd => hleft ?_
    cases c with
    | false => rfl
    | true => cases (hcd rfl).symm.trans hd
  rw [kind_bind, h.kind_eq hne]
  exact (hf s.kind).persisted h hok hleft

/-- An `else` branch is taken in both parses or in neither. -/
theorem elseBranch {a : α} (hm : Persists L true d m m') :
    Persists L true false
      (kind >>= fun k => if k = .keyword .elseWord then m else Pure.pure a)
      (kind >>= fun k => if k = .keyword .elseWord then m' else Pure.pure a) := by
  constructor
  · refine .kind_bind fun k => ?_
    split
    · exact hm.advances.weaken fun h => by cases h
    · exact .pure a
  · intro s s' b s₁ h hok hleft
    rw [kind_bind] at hok ⊢
    by_cases hnil : s.pending = []
    · have hkind : s'.kind ≠ .keyword .elseWord := by
        rw [ParseState.kind, h.pending, hnil, List.nil_append]
        cases hrest : L.rest with
        | nil => rintro ⟨⟩
        | cons t tail => exact L.not_else t (by rw [hrest]; rfl)
      rw [kind_of_nil hnil, if_neg (by rintro ⟨⟩)] at hok
      rw [if_neg hkind]
      exact (Persists.pure a).persisted h hok hleft
    · rw [h.kind_eq hnil]
      by_cases hk : s.kind = .keyword .elseWord
      · rw [if_pos hk] at hok ⊢
        exact hm.persisted h hok hleft
      · rw [if_neg hk] at hok ⊢
        exact (Persists.pure a).persisted h hok hleft

theorem eat_bind {f f' : Token → Parse β} (k : TokenKind)
    (hf : ∀ t, t.kind = k → Persists L c d (f t) (f' t)) :
    Persists L c true (Parse.eat L.left k >>= f) (Parse.eat L.right k >>= f') := by
  constructor
  · intro s b s₂ hok
    obtain ⟨t, s₁, h₁, h₂⟩ := bind_eq_ok.1 hok
    obtain ⟨-, -, hk, -⟩ := eat_eq_ok.1 h₁
    exact (Advances.eat k _ _ _ h₁).trans ((hf t hk).advances _ _ _ h₂)
  · intro s s' b s₂ h hok hleft
    obtain ⟨t, s₁, h₁, h₂⟩ := bind_eq_ok.1 hok
    obtain ⟨tail, hp, rfl, -, rfl⟩ := eat_eq_ok.1 h₁
    have hp' : s'.pending = t :: (tail ++ L.rest) := by rw [h.pending, hp, List.cons_append]
    refine Persisted.bind ?_ ((hf t rfl).advances _ _ _ h₂) fun s₁' h' =>
      (hf t rfl).persisted h' h₂ hleft
    by_cases hlast : tail ++ L.rest = [] → L.right.Complete
    · rw [eat_of_cons hp' hlast]
      refine .ok ⟨h.depth, rfl, ?_⟩
      rintro rfl hrest
      exact hlast hrest
    · obtain ⟨hnil, hnot⟩ := Classical.not_imp.1 hlast
      obtain ⟨e, he⟩ := (complete_or_fault L.right).resolve_left hnot
      rw [eat_of_fault (hnil ▸ hp') he]
      obtain ⟨rfl, hrest⟩ := List.append_eq_nil_iff.1 hnil
      exact .fault rfl hrest he

theorem discard_eat (k : TokenKind) :
    Persists L c true (discard (Parse.eat L.left k)) (discard (Parse.eat L.right k)) := by
  rw [discard_eq_bind, discard_eq_bind]
  exact .eat_bind k fun _ _ => .pure ()

theorem delimiter (t : Delimiter) :
    Persists L c true (Parse.delimiter L.left t) (Parse.delimiter L.right t) :=
  .discard_eat _

theorem keyword (w : Keyword) :
    Persists L c true (Parse.keyword L.left w) (Parse.keyword L.right w) :=
  .discard_eat _

theorem identifier :
    Persists L c true (Parse.identifier L.left) (Parse.identifier L.right) :=
  .eat_bind _ fun _ _ => .pure _

theorem literal : Persists L c true (Grammar.literal L.left) (Grammar.literal L.right) := by
  refine ⟨.literal, fun {s s' a s₁} h hok hleft => ?_⟩
  have hne := (Advances.literal s a s₁ hok).pending_ne_nil nofun
  obtain ⟨t, tail, hp⟩ := List.exists_cons_of_ne_nil hne
  have hnext : s.lookahead L.left = t := by rw [ParseState.lookahead, hp]; rfl
  have hnext' : s'.lookahead L.right = t := by rw [ParseState.lookahead, h.pending, hp]; rfl
  cases hvalue : Grammar.literal? t with
  | none =>
      rw [literal_of_none (hnext ▸ hvalue)] at hok
      cases hok
  | some value =>
      rw [literal_of_some (hnext ▸ hvalue), hnext] at hok
      rw [literal_of_some (hnext' ▸ hvalue), hnext']
      exact (eat_bind t.kind fun _ _ => .pure value).persisted h hok hleft

theorem nested (hm : Persists L c d m m') :
    Persists L c d (Parse.nested L.left m) (Parse.nested L.right m') := by
  refine ⟨hm.advances.nested, fun {s s' a s₂} h hok hleft => ?_⟩
  obtain ⟨hd, s₁, h₁, rfl⟩ := nested_eq_ok.1 hok
  have hd' : s'.depth < L.right.limit.toNat := by rwa [← L.limit_eq, ← h.depth]
  have hdeeper : ({ s with depth := s.depth + 1 } : ParseState).GoesOn L
      { s' with depth := s'.depth + 1 } := ⟨congrArg (· + 1) h.depth, h.pending, h.scanned⟩
  have hinner := hm.persisted hdeeper h₁ hleft
  rw [nested_of_lt hd']
  generalize m' { s' with depth := s'.depth + 1 } = r at hinner ⊢
  cases hinner with
  | ok h' => exact .ok ⟨congrArg (· - 1) h'.depth, h'.pending, h'.scanned⟩
  | fault hnil hrest he => exact .fault hnil hrest he

end Persists

section Loops

variable {more : TokenKind → Bool} {f f' : α → TokenKind → Parse α}

/-- The longer loop does the rounds of the shorter one, and is then to be continued. -/
theorem Persists.rounds {a b : α} {s s' s₁ : ParseState} (hend : more .endOfInput = false)
    (hp : Progress more fun a => kind >>= f a) (hp' : Progress more fun a => kind >>= f' a)
    (hf : ∀ a k, more k = true → Persists L c d (f a k) (f' a k))
    (h : s.GoesOn L s') (hok : whileKind more (fun a => kind >>= f a) a s = .ok b s₁)
    (hleft : c = false → s₁.pending ≠ []) :
    (∃ s₁', s₁.GoesOn L s₁' ∧ whileKind more (fun a => kind >>= f' a) a s' =
      whileKind more (fun a => kind >>= f' a) b s₁') ∨
    ∃ e s₁', s₁.pending = [] ∧ L.rest = [] ∧ L.right.ending = .fault e ∧
      whileKind more (fun a => kind >>= f' a) a s' = .error (.failed (.scan e)) s₁' := by
  induction hn : s.pending.length using Nat.strongRecOn generalizing a s s' with
  | ind n ih =>
      rw [whileKind_eq hend hp] at hok
      by_cases hmore : more s.kind = true
      · rw [if_pos hmore] at hok
        obtain ⟨a₁, s₂, h₁, h₂⟩ := bind_eq_ok.1 hok
        have hne : s.pending ≠ [] := by
          intro hnil
          rw [kind_of_nil hnil, hend] at hmore
          cases hmore
        have hlt := hp a s a₁ s₂ hmore h₁
        have hlead := Advances.whileKind (fun a k hk => (hf a k hk).advances) a₁ _ _ _ h₂
        have hround := (hf a s.kind hmore).persisted h h₁ fun hc hnil =>
          hleft hc (hlead.pending_of_nil hnil)
        have hfirst : (kind >>= f' a) s' = f' a s.kind s' := by rw [kind_bind, h.kind_eq hne]
        rw [whileKind_eq hend hp', h.kind_eq hne, if_pos hmore]
        generalize hrun : f' a s.kind s' = r at hround
        cases hround with
        | ok h' =>
            rw [bind_of_ok (hfirst.trans hrun)]
            exact ih _ (hn ▸ hlt) h' h₂ rfl
        | fault hnil hrest he =>
            rw [bind_of_error (hfirst.trans hrun)]
            exact .inr ⟨_, _, hlead.pending_of_nil hnil, hrest, he, rfl⟩
      · rw [if_neg hmore] at hok
        cases hok
        exact .inl ⟨s', h, rfl⟩

/-- A loop stops at the same token, if there is one. -/
theorem Persists.whileKind {a : α} (hend : more .endOfInput = false)
    (hp : Progress more fun a => kind >>= f a) (hp' : Progress more fun a => kind >>= f' a)
    (hf : ∀ a k, more k = true → Persists L false d (f a k) (f' a k)) :
    Persists L false false (Parse.whileKind more (fun a => kind >>= f a) a)
      (Parse.whileKind more (fun a => kind >>= f' a) a) := by
  refine ⟨.whileKind (fun a k hk => (hf a k hk).advances) a, fun h hok hleft => ?_⟩
  have hstop := whileKind_stops hend hp hok
  rcases rounds hend hp hp' hf h hok hleft with ⟨s₁', h₁, heq⟩ | ⟨e, s₁', hnil, -⟩
  · rw [heq, whileKind_eq hend hp', h₁.kind_eq (hleft rfl), hstop]
    exact .ok h₁
  · exact absurd hnil (hleft rfl)

end Loops

end Parse

/-! ## Productions -/

def Prolongation.runs (L : Prolongation) (calls : Nat) : TwoRuns where
  left := L.left
  right := L.right
  callLeft := Grammar.run L.left calls
  callRight := Grammar.run L.right calls
  Meets := Eq
  lexeme_eq := congrArg Token.lexeme
  advancesLeft := Grammar.run_advances calls
  advancesRight := Grammar.run_advances calls

/-- **Steps that are built alike persist**, as long as a token is left. -/
theorem Alike.persists {h : Nat} {b d : Bool} {m m' : Parse α}
    (hcalls : ∀ p, Persists L false true (Grammar.run L.left calls p) (Grammar.run L.right calls p))
    (hm : Alike (L.runs calls) h b d m m') : Persists L false d m m' := by
  induction hm with
  | pure a => exact .pure a
  | bind _ _ ihm ihf => exact ihm.bind ihf
  | look _ ih => exact .look nofun ih
  | literal _ ih =>
      refine .look nofun fun k => ?_
      split
      · exact (Persists.literal (c := false)).weaken nofun fun _ => rfl
      · exact ih k
  | eat k _ ih =>
      exact (Persists.eat_bind k fun t ht => ih t t rfl ht).weaken nofun fun _ => rfl
  | nested _ ih => exact .nested ih
  | call p _ => exact (hcalls p).weaken nofun fun _ => rfl
  | loop hend hp hp' _ ih => exact .whileKind hend hp hp' ih
  | noExpression => exact .of_fails fun s a s' => Grammar.expressionExpected_eq_ok.1
  | noOperator _ _ => exact .of_fails fun s a s' => fail_eq_ok.1
  | noTarget _ _ => exact .of_fails fun s a s' => fail_eq_ok.1

/-- Whether a production ends with a token of its own: a statement, or a part that ends one. -/
def Production.closes : Production → Bool
  | .statement | .block | .variableStatement | .ifStatement | .whileStatement | .doWhileStatement
  | .forStatement | .functionDeclaration | .returnStatement | .classDeclaration
  | .expressionStatement => true
  | .declarations | .declaration | .assignment | .binary _ | .unary | .callMember | .member
  | .arguments | .primary | .new => false

namespace Grammar

section Statements

variable (hcalls : ∀ p, Persists L p.closes true (run L.left calls p) (run L.right calls p))

include hcalls

theorem part_persists {h : Nat} {b d : Bool} {m m' : Parse α}
    (hm : Alike (L.runs calls) h b d m m') : Persists L false d m m' :=
  hm.persists fun p => (hcalls p).weaken nofun id

theorem statement_persists : Persists L true true (statement L.left (run L.left calls))
    (statement L.right (run L.right calls)) := by
  refine .nested (.look id fun k => ?_)
  unfold statementOf
  split
  · exact .bind (.delimiter _) fun _ => .pure _
  · exact .bind (hcalls .block) fun _ => .pure _
  · exact hcalls .variableStatement
  · exact hcalls .ifStatement
  · exact hcalls .whileStatement
  · exact hcalls .doWhileStatement
  · exact hcalls .forStatement
  · exact hcalls .functionDeclaration
  · exact hcalls .classDeclaration
  · exact hcalls .returnStatement
  · exact hcalls .expressionStatement

theorem block_persists : Persists L true true (block L.left (run L.left calls))
    (block L.right (run L.right calls)) := by
  refine .bind (.delimiter _) fun _ => .before (d := false) ?_ fun _ =>
    .bind (.delimiter _) fun _ => .pure _
  exact part_persists hcalls (statementsUntil_alike (h := 2) (b := true) _ (by decide))

theorem variableStatement_persists :
    Persists L true true (variableStatement L.left (run L.left calls))
      (variableStatement L.right (run L.right calls)) :=
  .before (hcalls .declarations) fun _ => .bind (.delimiter _) fun _ => .pure _

theorem condition_persists : Persists L false true (condition L.left (run L.left calls))
    (condition L.right (run L.right calls)) :=
  part_persists hcalls (condition_alike (h := 2) (b := true) (by decide))

/-- The one statement that depends on what follows it. -/
theorem ifStatement_persists : Persists L true true (ifStatement L.left (run L.left calls))
    (ifStatement L.right (run L.right calls)) := by
  refine .bind (.keyword _) fun _ => .before (condition_persists hcalls) fun test =>
    .bind (hcalls .statement) fun consequent => .elseBranch (d := true) ?_
  exact .bind (.keyword _) fun _ => .bind (hcalls .statement) fun _ => .pure _

theorem whileStatement_persists : Persists L true true (whileStatement L.left (run L.left calls))
    (whileStatement L.right (run L.right calls)) :=
  .bind (.keyword _) fun _ => .before (condition_persists hcalls) fun _ =>
    .bind (hcalls .statement) fun _ => .pure _

theorem doWhileStatement_persists :
    Persists L true true (doWhileStatement L.left (run L.left calls))
      (doWhileStatement L.right (run L.right calls)) :=
  .bind (.keyword _) fun _ => .bind (hcalls .statement) fun _ => .bind (.keyword _) fun _ =>
    .before (condition_persists hcalls) fun _ => .bind (.delimiter _) fun _ => .pure _

theorem expressionUnless_persists (stop : Delimiter) :
    Persists L false false (expressionUnless (run L.left calls) stop)
      (expressionUnless (run L.right calls) stop) :=
  part_persists hcalls (expressionUnless_alike (h := 2) (b := true) _ (by decide))

theorem forStatement_persists : Persists L true true (forStatement L.left (run L.left calls))
    (forStatement L.right (run L.right calls)) := by
  refine .bind (.keyword _) fun _ => .bind (.delimiter _) fun _ => .before (d := false) ?_ fun _ =>
    .bind (.delimiter _) fun _ => .before (expressionUnless_persists hcalls _) fun _ =>
      .bind (.delimiter _) fun _ => .before (expressionUnless_persists hcalls _) fun _ =>
        .bind (.delimiter _) fun _ => .bind (hcalls .statement) fun _ => .pure _
  exact part_persists hcalls (forInit_alike (h := 4) (b := true) (by decide))

theorem functionDeclaration_persists :
    Persists L true true (functionDeclaration L.left (run L.left calls))
      (functionDeclaration L.right (run L.right calls)) := by
  refine .bind (.keyword _) fun _ => .bind .identifier fun _ => .bind (.delimiter _) fun _ =>
    .before (d := false) ?_ fun _ => .bind (.delimiter _) fun _ =>
      .bind (hcalls .block) fun _ => .pure _
  exact part_persists hcalls (parameters_alike (h := 2) (b := true))

theorem returnStatement_persists : Persists L true true (returnStatement L.left (run L.left calls))
    (returnStatement L.right (run L.right calls)) :=
  .bind (.keyword _) fun _ => .before (expressionUnless_persists hcalls _) fun _ =>
    .bind (.delimiter _) fun _ => .pure _

theorem classDeclaration_persists :
    Persists L true true (classDeclaration L.left (run L.left calls))
      (classDeclaration L.right (run L.right calls)) := by
  refine .bind (.keyword _) fun _ => .bind .identifier fun _ => .before (d := false) ?_ fun _ =>
    .bind (hcalls .block) fun _ => .pure _
  exact part_persists hcalls (superclass_alike (h := 2) (b := true))

theorem expressionStatement_persists :
    Persists L true true (expressionStatement L.left (run L.left calls))
      (expressionStatement L.right (run L.right calls)) :=
  .before (hcalls .assignment) fun _ => .bind (.delimiter _) fun _ => .pure _

theorem body_persists (p : Production) : Persists L p.closes true (body L.left (run L.left calls) p)
    (body L.right (run L.right calls) p) := by
  cases p with
  | statement => exact statement_persists hcalls
  | block => exact block_persists hcalls
  | variableStatement => exact variableStatement_persists hcalls
  | ifStatement => exact ifStatement_persists hcalls
  | whileStatement => exact whileStatement_persists hcalls
  | doWhileStatement => exact doWhileStatement_persists hcalls
  | forStatement => exact forStatement_persists hcalls
  | functionDeclaration => exact functionDeclaration_persists hcalls
  | returnStatement => exact returnStatement_persists hcalls
  | classDeclaration => exact classDeclaration_persists hcalls
  | expressionStatement => exact expressionStatement_persists hcalls
  | _ => exact part_persists hcalls (body_alike _)

end Statements

/-- **Statements do not look behind their end.** -/
theorem run_persists (calls : Nat) (p : Production) :
    Persists L p.closes true (run L.left calls p) (run L.right calls p) := by
  induction calls generalizing p with
  | zero => exact .of_fails fun s a s' => throw_eq_ok.1
  | succ calls ih => exact body_persists ih p

end Grammar

/-! ## Programs -/

namespace Parse

variable {more : TokenKind → Bool} {item : Parse α}

/-- The items that a loop starts with stay behind those that it finds. -/
theorem whileKind_push (hend : more .endOfInput = false) (hitem : Advances true item)
    (items : List α) :
    whileKind more (fun items => return (← item) :: items) items =
      whileKind more (fun items => return (← item) :: items) [] >>= fun found =>
        pure (found ++ items) := by
  have hp : Progress more fun items : List α => (do return (← item) :: items : Parse (List α)) :=
    .of_advances fun items => hitem.bind fun _ => .pure _
  generalize hloop : whileKind more (fun items : List α => do return (← item) :: items) = loop
  have hunfold : ∀ items s, loop items s =
      if more s.kind = true then (item >>= fun a => loop (a :: items)) s else .ok items s := by
    intro items s
    rw [← hloop, whileKind_eq hend hp, bind_assoc]
    simp only [pure_bind]
  funext s
  induction hn : s.pending.length using Nat.strongRecOn generalizing items s with
  | ind n ih =>
      by_cases hmore : more s.kind = true
      · rw [hunfold, if_pos hmore]
        cases hrun : item s with
        | error e s₁ =>
            have hfirst : loop [] s = .error e s₁ := by
              rw [hunfold, if_pos hmore, bind_of_error hrun]
            rw [bind_of_error hrun, bind_of_error hfirst]
        | ok a s₁ =>
            have hlt : s₁.pending.length < n := hn ▸ (hitem s a s₁ hrun).length_lt
            have hfirst : loop [] s = (loop [] >>= fun found => pure (found ++ [a])) s₁ := by
              rw [hunfold, if_pos hmore, bind_of_ok hrun, ih _ hlt [a] s₁ rfl]
            rw [bind_of_ok hrun, ih _ hlt (a :: items) s₁ rfl, bind_eq_of_eq hfirst, bind_assoc]
            simp only [pure_bind, List.append_assoc, List.singleton_append]
      · have hnone : ∀ items, loop items s = .ok items s := by
          intro items
          rw [hunfold, if_neg hmore]
        rw [hnone, bind_of_ok (hnone [])]
        rfl

theorem collectWhile_after (hend : more .endOfInput = false) (hitem : Advances true item)
    (items : List α) :
    (whileKind more (fun items => return (← item) :: items) items >>= fun found =>
        pure found.reverse) =
      collectWhile more item >>= fun found => pure (items.reverse ++ found) := by
  rw [whileKind_push hend hitem items, bind_assoc, collectWhile, bind_assoc]
  simp only [pure_bind, List.reverse_append]

end Parse

/-- The statements up to the end of the shorter input come first in the longer one. -/
theorem Grammar.statementsUntil_goesOn {body : List Statement} {s s' s₁ : ParseState}
    (h : s.GoesOn L s') (hok : statementsUntil (run L.left calls) .endOfInput s = .ok body s₁) :
    (∃ s₁', s₁.GoesOn L s₁' ∧ statementsUntil (run L.right calls) .endOfInput s' =
      (statementsUntil (run L.right calls) .endOfInput >>= fun found => pure (body ++ found)) s₁') ∨
    ∃ e s₁', L.rest = [] ∧ L.right.ending = .fault e ∧
      statementsUntil (run L.right calls) .endOfInput s' = .error (.failed (.scan e)) s₁' := by
  obtain ⟨items, s₂, hloop, hok⟩ := bind_eq_ok.1 hok
  obtain ⟨rfl, rfl⟩ := pure_eq_ok.1 hok
  have hrounds : ∀ g : Setting, Progress (fun k => k ≠ .endOfInput && k ≠ .endOfInput)
      fun items : List Statement => kind >>= fun _ => (do
        return (← run g calls .statement) :: items : Parse (List Statement)) :=
    fun g => .of_advances fun items => (run_advances calls .statement).bind fun _ => .pure _
  rcases Persists.rounds (by simp) (hrounds L.left) (hrounds L.right)
      (fun items _ _ => (run_persists calls .statement).bind fun _ => .pure _) h hloop nofun
    with ⟨s₁', h₁, heq⟩ | ⟨e, s₁', -, hrest, he, heq⟩
  · refine .inl ⟨s₁', h₁, (bind_eq_of_eq heq).trans ?_⟩
    exact congrFun (collectWhile_after (by simp) (run_advances calls .statement) items) s₁'
  · exact .inr ⟨e, s₁', hrest, he, bind_of_error heq⟩

/-- **A program is found again at the start of a longer one**, which goes on from there. If nothing
but what cannot be scanned comes after it, the longer parse fails. -/
theorem Program.parse_goesOn {p : Program} {s s' s₁ : ParseState} (h : s.GoesOn L s')
    (hok : Program.parse L.left s = .ok p s₁) :
    (∃ s₁', s₁.GoesOn L s₁' ∧ Program.parse L.right s' =
      (Program.parse L.right >>= fun q => pure ⟨p.body ++ q.body⟩) s₁') ∨
    ∃ e s₁', L.rest = [] ∧ L.right.ending = .fault e ∧
      Program.parse L.right s' = .error (.failed (.scan e)) s₁' := by
  obtain ⟨body, s₂, hbody, hok⟩ := bind_eq_ok.1 hok
  obtain ⟨rfl, rfl⟩ := pure_eq_ok.1 hok
  unfold Program.parse
  rw [← L.limit_eq]
  rcases Grammar.statementsUntil_goesOn h hbody with ⟨s₁', h₁, heq⟩ | ⟨e, s₁', hrest, he, heq⟩
  · refine .inl ⟨s₁', h₁, ?_⟩
    rw [bind_eq_of_eq heq, bind_assoc, bind_assoc]
    simp only [pure_bind]
  · exact .inr ⟨e, s₁', hrest, he, bind_of_error heq⟩

end LetterLang

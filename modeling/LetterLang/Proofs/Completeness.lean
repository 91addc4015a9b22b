import LetterLang.Proofs.CompleteExpressions

/-!
# Completeness of the parser

Statements are accepted whatever follows them: each ends with a delimiter of its own or with a
statement, and the one condition on what follows, that of an `if` without `else`, is part of its
derivation. A statement that starts a level has `callsPerLevel` calls for it, of which its own
productions take a few.
-/

namespace LetterLang

open Parse

namespace Grammar

variable {g : Setting} {n c : Nat} {i j k : List Lexeme}

/-! ## Parts of statements -/

theorem declaration_accepts (hg : g.Complete) {d : Declaration} (h : DerivesDeclaration n i d k)
    (hk : Lexeme.firstKind k = .delimiter .semicolon ∨ Lexeme.firstKind k = .delimiter .comma)
    (hc : callsPerLevel * n ≤ c) : Accepts g (declaration g (run g c)) n i d k := by
  cases h with
  | bare =>
      refine (identifier_accepts hg _).bind (.kind_bind ?_)
      rcases hk with hk | hk <;> rw [hk] <;> exact .pure
  | initialized h =>
      refine (identifier_accepts hg _).bind (.kind_bind ?_)
      have hv := h.accepts hg (by rcases hk with hk | hk <;> rw [hk] <;> rfl) hc
      exact (discard_eat_accepts hg _).bind (hv.bind .pure)

theorem declarations_accepts (hg : g.Complete) {ds : List Declaration}
    (h : DerivesDeclarations n i ds (Lexeme.delimiter .semicolon :: k))
    (hc : callsPerLevel * n + 2 ≤ c) :
    Accepts g (run g c .declarations) n i ds (Lexeme.delimiter .semicolon :: k) := by
  refine accepts_run (by omega) (fun c hc => ?_) hc
  cases h with
  | mk h =>
      refine (keyword_accepts hg _).bind (commaSeparated_accepts hg
        (F := fun kind => kind = .delimiter .semicolon ∨ kind = .delimiter .comma)
        (fun h hk => ?_) DerivesDeclaration.length_lt (.inr rfl) (.inl rfl) (by simp) h)
      exact accepts_run (by omega) (fun c hc => declaration_accepts hg h hk (by omega))
        (by omega : callsPerLevel * n + 1 ≤ c)

theorem expressionUnless_accepts (hg : g.Complete) {e : Option Expr} {stop : Delimiter}
    (h : DerivesOption n i e (Lexeme.delimiter stop :: k))
    (hstop : stop = .semicolon ∨ stop = .closeParen) (hc : callsPerLevel * n ≤ c) :
    Accepts g (expressionUnless (run g c) stop) n i e (Lexeme.delimiter stop :: k) := by
  refine .kind_bind ?_
  cases h with
  | none =>
      rw [if_pos (by rfl)]
      exact .pure
  | some h =>
      have hne : ¬ Lexeme.firstKind i = .delimiter stop := by
        intro heq
        have hstart := h.starts
        rw [heq] at hstart
        rcases hstop with rfl | rfl <;> cases hstart
      rw [if_neg hne]
      have hfollow : (TokenKind.delimiter stop).continuesExpression = false := by
        rcases hstop with rfl | rfl <;> rfl
      exact (h.accepts hg hfollow hc).bind .pure

theorem forInit_accepts (hg : g.Complete) {init : Option ForInit}
    (h : DerivesForInit n i init (Lexeme.delimiter .semicolon :: k))
    (hc : callsPerLevel * n + 2 ≤ c) :
    Accepts g (forInit (run g c)) n i init (Lexeme.delimiter .semicolon :: k) := by
  refine .kind_bind ?_
  cases h with
  | none => exact .pure
  | declarations h =>
      have hds := declarations_accepts hg h hc
      cases h
      exact hds.bind .pure
  | expression h =>
      have he := h.accepts hg rfl (by omega : callsPerLevel * n ≤ c)
      have hstart := h.starts
      split
      · next heq =>
        rw [heq] at hstart
        cases hstart
      · next heq =>
        rw [heq] at hstart
        cases hstart
      · exact he.bind .pure

theorem parameters_accepts (hg : g.Complete) {names : List String}
    (h : DerivesParameters i names (Lexeme.delimiter .closeParen :: k)) :
    Accepts g (parameters g) n i names (Lexeme.delimiter .closeParen :: k) := by
  refine .kind_bind ?_
  cases h with
  | none =>
      rw [if_pos (by rfl)]
      exact .pure
  | some h =>
      have hne : ¬ Lexeme.firstKind i = .delimiter .closeParen := by
        cases h with
        | one h | more h _ =>
            cases h
            simp
      rw [if_neg hne]
      refine commaSeparated_accepts hg (F := fun _ => True) (fun h _ => ?_)
        DerivesName.length_lt trivial trivial (by simp) h
      cases h
      exact identifier_accepts hg _

theorem superclass_accepts (hg : g.Complete) {parent : Option String}
    (h : DerivesSuperclass i parent k) (hk : Lexeme.firstKind k = .delimiter .openBrace) :
    Accepts g (superclass g) n i parent k := by
  refine .kind_bind ?_
  cases h with
  | none =>
      rw [if_neg (by simp [hk])]
      exact .pure
  | some =>
      rw [if_pos (by rfl)]
      exact (keyword_accepts hg _).bind ((identifier_accepts hg _).bind .pure)

/-! ## Statements

`CompletesStatement` says how the production accepts a statement; one lemma for each kind of
statement follows. -/

def CompletesStatement (g : Setting) (n : Nat) (i : List Lexeme) (s : Statement)
    (k : List Lexeme) : Prop :=
  ∀ c, callsPerLevel * n ≤ c + 1 → Accepts g (statement g (run g c)) n i s k

def CompletesBlock (g : Setting) (n : Nat) (i : List Lexeme) (ss : List Statement)
    (k : List Lexeme) : Prop :=
  ∀ c, callsPerLevel * n + 1 ≤ c + 1 → Accepts g (block g (run g c)) n i ss k

/-- Statements are read one after another onto those already read, up to a brace or the end. -/
def CompletesStatements (g : Setting) (n : Nat) (i : List Lexeme) (ss : List Statement)
    (k : List Lexeme) : Prop :=
  ∀ c stop acc, callsPerLevel * n ≤ c →
    (stop = .delimiter .closeBrace ∨ stop = .endOfInput) → Lexeme.firstKind k = stop →
    Loops g n (fun kind => kind ≠ stop && kind ≠ .endOfInput)
      (fun items => return (← run g c .statement) :: items) i acc k (ss.reverse ++ acc)

theorem CompletesStatement.run {s : Statement} (h : CompletesStatement g n i s k) (hn : 0 < n)
    (hc : callsPerLevel * n ≤ c) : Accepts g (run g c .statement) n i s k :=
  accepts_run (Nat.mul_pos (by decide) hn) h hc

theorem CompletesBlock.run {ss : List Statement} (h : CompletesBlock g n i ss k)
    (hc : callsPerLevel * n + 1 ≤ c) : Accepts g (run g c .block) n i ss k :=
  accepts_run (by omega) h hc

/-- The first lexeme decides which step reads the statement. -/
theorem statement_accepts {m : Parse Statement} {s : Statement}
    (hm : statementOf g (Grammar.run g c) (Lexeme.firstKind i) = m) (h : Accepts g m n i s k) :
    Accepts g (statement g (Grammar.run g c)) (n + 1) i s k := by
  refine Accepts.nested (.kind_bind ?_)
  rw [hm]
  exact h

theorem accepts_within {p : Production} {a : p.Result}
    (h : ∀ c, callsPerLevel * n + 3 ≤ c → Accepts g (body g (Grammar.run g c) p) n i a k)
    (hc : callsPerLevel * (n + 1) ≤ c + 1) : Accepts g (Grammar.run g c p) n i a k := by
  rw [callsPerLevel] at hc
  exact accepts_run (by omega : 0 < callsPerLevel * n + 4) (fun c hc => h c (by omega))
    (by rw [callsPerLevel]; omega)

theorem statement_empty (hg : g.Complete) :
    CompletesStatement g (n + 1) (Lexeme.delimiter .semicolon :: k) .empty k := by
  intro c hc
  exact statement_accepts rfl ((delimiter_accepts hg _).bind .pure)

theorem statement_expression (hg : g.Complete) {e : Expr}
    (h : DerivesExpr .assignment n i e (Lexeme.delimiter .semicolon :: k)) :
    CompletesStatement g (n + 1) i (.expression e) k := by
  intro c hc
  have hof : statementOf g (Grammar.run g c) (Lexeme.firstKind i) =
      Grammar.run g c .expressionStatement := by
    have hstart := h.starts
    unfold statementOf
    split
    case h_11 => rfl
    all_goals
      next heq =>
      rw [heq] at hstart
      cases hstart
  refine statement_accepts hof (accepts_within (fun c hc => ?_) hc)
  have he := h.accepts hg rfl (by omega : callsPerLevel * n ≤ c)
  exact he.bind ((delimiter_accepts hg _).bind .pure)

theorem statement_block {body : List Statement}
    (hstart : Lexeme.firstKind i = .delimiter .openBrace)
    (h : CompletesBlock g n i body k) : CompletesStatement g (n + 1) i (.block body) k := by
  intro c hc
  rw [callsPerLevel] at hc
  refine statement_accepts (by rw [hstart]) ?_
  exact (h.run (by rw [callsPerLevel]; omega)).bind .pure

theorem statement_variable (hg : g.Complete) {ds : List Declaration}
    (h : DerivesDeclarations n i ds (Lexeme.delimiter .semicolon :: k)) :
    CompletesStatement g (n + 1) i (.variable ds) k := by
  intro c hc
  have hof : statementOf g (Grammar.run g c) (Lexeme.firstKind i) =
      Grammar.run g c .variableStatement := by
    cases h
    rfl
  refine statement_accepts hof (accepts_within (fun c hc => ?_) hc)
  have hds := declarations_accepts hg h (by omega : callsPerLevel * n + 2 ≤ c)
  exact hds.bind ((delimiter_accepts hg _).bind .pure)

theorem statement_ifThen (hg : g.Complete) {test : Expr} {s : Statement}
    (htest : DerivesExpr .assignment n i test (Lexeme.delimiter .closeParen :: j))
    (h : CompletesStatement g n j s k) (helse : Lexeme.firstKind k ≠ .keyword .elseWord) :
    CompletesStatement g (n + 1)
      (Lexeme.keyword .ifWord :: Lexeme.delimiter .openParen :: i) (.ifThen test s) k := by
  intro c hc
  refine statement_accepts rfl (accepts_within (p := .ifStatement) (fun c hc => ?_) hc)
  have ht := condition_accepts hg htest.levels_pos (htest.completes hg)
    (by omega : callsPerLevel * n ≤ c)
  have hs := h.run htest.levels_pos (by omega : callsPerLevel * n ≤ c)
  refine (keyword_accepts hg _).bind (ht.bind (hs.bind (.kind_bind ?_)))
  rw [if_neg helse]
  exact .pure

theorem statement_ifElse (hg : g.Complete) {test : Expr} {s s' : Statement} {j' : List Lexeme}
    (htest : DerivesExpr .assignment n i test (Lexeme.delimiter .closeParen :: j))
    (h : CompletesStatement g n j s (Lexeme.keyword .elseWord :: j'))
    (h' : CompletesStatement g n j' s' k) :
    CompletesStatement g (n + 1)
      (Lexeme.keyword .ifWord :: Lexeme.delimiter .openParen :: i) (.ifElse test s s') k := by
  intro c hc
  refine statement_accepts rfl (accepts_within (p := .ifStatement) (fun c hc => ?_) hc)
  have ht := condition_accepts hg htest.levels_pos (htest.completes hg)
    (by omega : callsPerLevel * n ≤ c)
  have hs := h.run htest.levels_pos (by omega : callsPerLevel * n ≤ c)
  have hs' := h'.run htest.levels_pos (by omega : callsPerLevel * n ≤ c)
  refine (keyword_accepts hg _).bind (ht.bind (hs.bind (.kind_bind ?_)))
  rw [if_pos (by rfl)]
  exact (keyword_accepts hg _).bind (hs'.bind .pure)

theorem statement_while (hg : g.Complete) {test : Expr} {s : Statement}
    (htest : DerivesExpr .assignment n i test (Lexeme.delimiter .closeParen :: j))
    (h : CompletesStatement g n j s k) :
    CompletesStatement g (n + 1)
      (Lexeme.keyword .whileWord :: Lexeme.delimiter .openParen :: i) (.whileLoop test s) k := by
  intro c hc
  refine statement_accepts rfl (accepts_within (p := .whileStatement) (fun c hc => ?_) hc)
  have ht := condition_accepts hg htest.levels_pos (htest.completes hg)
    (by omega : callsPerLevel * n ≤ c)
  have hs := h.run htest.levels_pos (by omega : callsPerLevel * n ≤ c)
  exact (keyword_accepts hg _).bind (ht.bind (hs.bind .pure))

theorem statement_doWhile (hg : g.Complete) {test : Expr} {s : Statement}
    (h : CompletesStatement g n i s
      (Lexeme.keyword .whileWord :: Lexeme.delimiter .openParen :: j))
    (htest : DerivesExpr .assignment n j test
      (Lexeme.delimiter .closeParen :: Lexeme.delimiter .semicolon :: k)) :
    CompletesStatement g (n + 1) (Lexeme.keyword .doWord :: i) (.doWhile s test) k := by
  intro c hc
  refine statement_accepts rfl (accepts_within (p := .doWhileStatement) (fun c hc => ?_) hc)
  have ht := condition_accepts hg htest.levels_pos (htest.completes hg)
    (by omega : callsPerLevel * n ≤ c)
  have hs := h.run htest.levels_pos (by omega : callsPerLevel * n ≤ c)
  exact (keyword_accepts hg _).bind (hs.bind ((keyword_accepts hg _).bind
    (ht.bind ((delimiter_accepts hg _).bind .pure))))

theorem statement_for (hg : g.Complete) {init : Option ForInit} {test update : Option Expr}
    {s : Statement} {i₁ i₂ i₃ : List Lexeme} (hn : 0 < n)
    (hinit : DerivesForInit n i init (Lexeme.delimiter .semicolon :: i₁))
    (htest : DerivesOption n i₁ test (Lexeme.delimiter .semicolon :: i₂))
    (hupdate : DerivesOption n i₂ update (Lexeme.delimiter .closeParen :: i₃))
    (h : CompletesStatement g n i₃ s k) :
    CompletesStatement g (n + 1) (Lexeme.keyword .forWord :: Lexeme.delimiter .openParen :: i)
      (.forLoop init test update s) k := by
  intro c hc
  refine statement_accepts rfl (accepts_within (p := .forStatement) (fun c hc => ?_) hc)
  have h₁ := forInit_accepts hg hinit (by omega : callsPerLevel * n + 2 ≤ c)
  have h₂ := expressionUnless_accepts hg htest (.inl rfl) (by omega : callsPerLevel * n ≤ c)
  have h₃ := expressionUnless_accepts hg hupdate (.inr rfl) (by omega : callsPerLevel * n ≤ c)
  have hs := h.run hn (by omega : callsPerLevel * n ≤ c)
  refine (keyword_accepts hg _).bind ((delimiter_accepts hg _).bind (h₁.bind ?_))
  refine (delimiter_accepts hg _).bind (h₂.bind ((delimiter_accepts hg _).bind (h₃.bind ?_)))
  exact (delimiter_accepts hg _).bind (hs.bind .pure)

theorem statement_function (hg : g.Complete) {name : String} {params : List String}
    {body : List Statement}
    (hparams : DerivesParameters i params (Lexeme.delimiter .closeParen :: j))
    (h : CompletesBlock g n j body k) :
    CompletesStatement g (n + 1)
      (Lexeme.keyword .defWord :: Lexeme.identifier name :: Lexeme.delimiter .openParen :: i)
      (.function name params body) k := by
  intro c hc
  refine statement_accepts rfl (accepts_within (p := .functionDeclaration) (fun c hc => ?_) hc)
  have hb := h.run (by omega : callsPerLevel * n + 1 ≤ c)
  refine (keyword_accepts hg _).bind ((identifier_accepts hg _).bind
    ((delimiter_accepts hg _).bind ((parameters_accepts hg hparams).bind ?_)))
  exact (delimiter_accepts hg _).bind (hb.bind .pure)

theorem statement_return (hg : g.Complete) {argument : Option Expr}
    (h : DerivesOption n i argument (Lexeme.delimiter .semicolon :: k)) :
    CompletesStatement g (n + 1) (Lexeme.keyword .returnWord :: i) (.return argument) k := by
  intro c hc
  refine statement_accepts rfl (accepts_within (p := .returnStatement) (fun c hc => ?_) hc)
  have he := expressionUnless_accepts hg h (.inl rfl) (by omega : callsPerLevel * n ≤ c)
  exact (keyword_accepts hg _).bind (he.bind ((delimiter_accepts hg _).bind .pure))

theorem statement_class (hg : g.Complete) {name : String} {parent : Option String}
    {body : List Statement} (hparent : DerivesSuperclass i parent j)
    (hstart : Lexeme.firstKind j = .delimiter .openBrace) (h : CompletesBlock g n j body k) :
    CompletesStatement g (n + 1) (Lexeme.keyword .classWord :: Lexeme.identifier name :: i)
      (.class name parent body) k := by
  intro c hc
  refine statement_accepts rfl (accepts_within (p := .classDeclaration) (fun c hc => ?_) hc)
  have hb := h.run (by omega : callsPerLevel * n + 1 ≤ c)
  exact (keyword_accepts hg _).bind ((identifier_accepts hg _).bind
    ((superclass_accepts hg hparent hstart).bind (hb.bind .pure)))

theorem block_accepts (hg : g.Complete) {body : List Statement}
    (h : CompletesStatements g n i body (Lexeme.delimiter .closeBrace :: k)) :
    CompletesBlock g n (Lexeme.delimiter .openBrace :: i) body k := by
  intro c hc
  have hloop := (h c _ [] (by omega) (.inl rfl) rfl).accepts
  rw [List.append_nil] at hloop
  have hb : Accepts g (statementsUntil (Grammar.run g c) (.delimiter .closeBrace)) n i
      body.reverse.reverse (Lexeme.delimiter .closeBrace :: k) := hloop.bind .pure
  rw [List.reverse_reverse] at hb
  exact (delimiter_accepts hg _).bind (hb.bind ((delimiter_accepts hg _).bind .pure))

theorem statements_cons {s : Statement} {ss : List Statement} (hn : 0 < n)
    (hstart : Lexeme.firstKind i ≠ .delimiter .closeBrace ∧ Lexeme.firstKind i ≠ .endOfInput)
    (hlt : j.length < i.length) (h : CompletesStatement g n i s j)
    (h' : CompletesStatements g n j ss k) : CompletesStatements g n i (s :: ss) k := by
  intro c stop acc hc hstop hk
  have hmore : (Lexeme.firstKind i ≠ stop && Lexeme.firstKind i ≠ .endOfInput) = true := by
    rcases hstop with rfl | rfl <;> simp [hstart]
  rw [List.reverse_cons, List.append_assoc]
  exact .round hmore ((h.run hn hc).bind .pure) hlt (h' c stop (s :: acc) hc hstop hk)

end Grammar

open Grammar

variable {g : Setting}

mutual

/-- **Completeness of statements.** The parser accepts every statement that is derived. -/
theorem DerivesStatement.completes (hg : g.Complete) {n : Nat} {i k : List Lexeme}
    {s : Statement} : DerivesStatement n i s k → CompletesStatement g n i s k
  | .empty => statement_empty hg
  | .expression h => statement_expression hg h
  | .block h => statement_block h.starts (h.completes hg)
  | .variable h => statement_variable hg h
  | .ifThen h h' helse => statement_ifThen hg h (h'.completes hg) helse
  | .ifElse h h' h'' => statement_ifElse hg h (h'.completes hg) (h''.completes hg)
  | .whileLoop h h' => statement_while hg h (h'.completes hg)
  | .doWhile h h' => statement_doWhile hg (h.completes hg) h'
  | .forLoop h₁ h₂ h₃ h => statement_for hg h.levels_pos h₁ h₂ h₃ (h.completes hg)
  | .function h h' => statement_function hg h (h'.completes hg)
  | .return h => statement_return hg h
  | .class h h' => statement_class hg h h'.starts (h'.completes hg)

theorem DerivesBlock.completes (hg : g.Complete) {n : Nat} {i k : List Lexeme}
    {ss : List Statement} : DerivesBlock n i ss k → CompletesBlock g n i ss k
  | .mk h => block_accepts hg (h.completes hg)

theorem DerivesStatements.completes (hg : g.Complete) {n : Nat} {i k : List Lexeme}
    {ss : List Statement} : DerivesStatements n i ss k → CompletesStatements g n i ss k
  | .nil => by
      intro c stop acc _ _ hk
      exact .stop (by simp [hk])
  | .cons h h' =>
      statements_cons h.levels_pos ⟨h.starts.1, h.starts.2.1⟩ h.length_lt (h.completes hg)
        (h'.completes hg)

end

end LetterLang

import LetterLang.Proofs.Derivation
import LetterLang.Proofs.Reading

/-!
# Soundness of the parser

Whatever a production yields, the lexemes that it has read derive it. The relation that belongs to
a production is `Production.Derives`; the family of calls is sound if each call yields what its
production derives (`Grammar.Sound`), and the body of the grammar keeps that. So it holds of every
run, by induction on the calls that the run may have open (`Grammar.run_sound`).

The one production that promises more than its derivation is `binary min`: it stops only where no
operator of level `min` or tighter follows. Its loop takes operators of several levels, and the
promise of its right operands is what makes their levels descend.
-/

namespace LetterLang

open Parse

/-- What a production derives. Productions of single statements run inside the level of their
statement, and that of `new` inside the level of `new`. -/
def Production.Derives : (p : Production) → Nat → List Lexeme → p.Result → List Lexeme → Prop
  | .statement => DerivesStatement
  | .block => DerivesBlock
  | .declarations => DerivesDeclarations
  | .declaration => DerivesDeclaration
  | .variableStatement | .ifStatement | .whileStatement | .doWhileStatement | .forStatement
  | .functionDeclaration | .returnStatement | .classDeclaration | .expressionStatement =>
    fun n => DerivesStatement (n + 1)
  | .assignment => DerivesExpr .assignment
  | .binary min => fun n i e k =>
    DerivesExpr (.binary min) n i e k ∧ min.admits (Lexeme.firstKind k) = false
  | .unary => DerivesExpr .unary
  | .callMember => DerivesExpr .callMember
  | .member => DerivesExpr .member
  | .arguments => DerivesArguments
  | .primary => DerivesExpr .primary
  | .new => fun n => DerivesExpr .primary (n + 1)

namespace Grammar

open Production (Calls)

def Sound (g : Setting) (call : Calls) : Prop :=
  ∀ p, Yields g (call p) p.Derives

variable {g : Setting} {call : Calls}

/-! ## Loops over items -/

theorem commaSeparated_yields {α : Type} {item : Parse α}
    {R : Nat → List Lexeme → α → List Lexeme → Prop} (hitem : Yields g item R)
    (hlt : ∀ {n i a k}, R n i a k → k.length < i.length) :
    Yields g (commaSeparated g item) fun n => CommaSeparated (R n) := by
  intro n i s as s' hs h
  obtain ⟨a, s₁, h₁, h⟩ := bind_eq_ok.1 h
  obtain ⟨items, s₂, h₂, h⟩ := bind_eq_ok.1 h
  obtain ⟨rfl, rfl⟩ := pure_eq_ok.1 h
  obtain ⟨i₁, hs₁, ha⟩ := hitem hs h₁
  -- The items so far, the latest first, always make up a list that ends where the loop stands.
  have hstart : CommaSeparated (R n) i [a].reverse i₁ := .one ha
  obtain ⟨k, hk, hitems, -⟩ := whileKind_invariant
    (P := fun items j => CommaSeparated (R n) i (List.reverse items) j) h₂ hs₁ hstart rfl (by
      intro items items' j s s' hs hitems _ h
      obtain ⟨_, s₁, h₁, h⟩ := bind_eq_ok.1 h
      obtain ⟨b, s₂, h₂, h⟩ := bind_eq_ok.1 h
      obtain ⟨rfl, rfl⟩ := pure_eq_ok.1 h
      obtain ⟨j₁, hs₁, rfl⟩ := delimiter_yields _ hs h₁
      obtain ⟨k, hs₂, hb⟩ := hitem hs₁ h₂
      refine ⟨k, hs₂, Nat.lt_succ_of_lt (hlt hb), ?_⟩
      rw [List.reverse_cons]
      exact hitems.snoc hb)
  exact ⟨k, hk, hitems⟩

theorem statementsUntil_yields (hc : Sound g call) (stop : TokenKind) :
    Yields g (statementsUntil call stop) fun n i ss k => DerivesStatements n i ss k ∧
      (Lexeme.firstKind k = stop ∨ Lexeme.firstKind k = .endOfInput) := by
  intro n i s ss s' hs h
  obtain ⟨items, s₁, h₁, h⟩ := bind_eq_ok.1 h
  obtain ⟨rfl, rfl⟩ := pure_eq_ok.1 h
  obtain ⟨k, hk, hitems, hend⟩ := whileKind_invariant
    (P := fun items j => DerivesStatements n i (List.reverse items) j) h₁ hs .nil (by simp) (by
      intro items items' j s s' hs hitems _ h
      obtain ⟨b, s₂, h₂, h⟩ := bind_eq_ok.1 h
      obtain ⟨rfl, rfl⟩ := pure_eq_ok.1 h
      obtain ⟨k, hs₂, hb⟩ := hc .statement hs h₂
      refine ⟨k, hs₂, DerivesStatement.length_lt hb, ?_⟩
      rw [List.reverse_cons]
      exact hitems.snoc hb)
  refine ⟨k, hk, hitems, ?_⟩
  simpa [Decidable.or_iff_not_imp_left] using hend

/-! ## Statements -/

theorem block_yields (hc : Sound g call) : Yields g (block g call) DerivesBlock := by
  intro n i s body s' hs h
  obtain ⟨_, s₁, h₁, h⟩ := bind_eq_ok.1 h
  obtain ⟨ss, s₂, h₂, h⟩ := bind_eq_ok.1 h
  obtain ⟨_, s₃, h₃, h⟩ := bind_eq_ok.1 h
  obtain ⟨rfl, rfl⟩ := pure_eq_ok.1 h
  obtain ⟨i₁, hs₁, rfl⟩ := delimiter_yields _ hs h₁
  obtain ⟨i₂, hs₂, hb, -⟩ := statementsUntil_yields hc _ hs₁ h₂
  obtain ⟨k, hs₃, rfl⟩ := delimiter_yields _ hs₂ h₃
  exact ⟨k, hs₃, .mk hb⟩

theorem condition_yields (hc : Sound g call) :
    Yields g (condition g call) fun n i e k => ∃ i', i = Lexeme.delimiter .openParen :: i' ∧
      DerivesExpr .assignment n i' e (Lexeme.delimiter .closeParen :: k) := by
  intro n i s e s' hs h
  obtain ⟨_, s₁, h₁, h⟩ := bind_eq_ok.1 h
  obtain ⟨e, s₂, h₂, h⟩ := bind_eq_ok.1 h
  obtain ⟨_, s₃, h₃, h⟩ := bind_eq_ok.1 h
  obtain ⟨rfl, rfl⟩ := pure_eq_ok.1 h
  obtain ⟨i₁, hs₁, rfl⟩ := delimiter_yields _ hs h₁
  obtain ⟨i₂, hs₂, he⟩ := hc .assignment hs₁ h₂
  obtain ⟨k, hs₃, rfl⟩ := delimiter_yields _ hs₂ h₃
  exact ⟨k, hs₃, i₁, rfl, he⟩

theorem declaration_yields (hc : Sound g call) :
    Yields g (declaration g call) DerivesDeclaration := by
  intro n i s d s' hs h
  obtain ⟨name, s₁, h₁, h⟩ := bind_eq_ok.1 h
  obtain ⟨kind, s₂, h₂, h⟩ := bind_eq_ok.1 h
  obtain ⟨-, rfl⟩ := kind_eq_ok.1 h₂
  obtain ⟨i₁, hs₁, rfl⟩ := identifier_yields hs h₁
  split at h
  · obtain ⟨rfl, rfl⟩ := pure_eq_ok.1 h
    exact ⟨i₁, hs₁, .bare⟩
  · obtain ⟨rfl, rfl⟩ := pure_eq_ok.1 h
    exact ⟨i₁, hs₁, .bare⟩
  · obtain ⟨_, s₃, h₃, h⟩ := bind_eq_ok.1 h
    obtain ⟨e, s₄, h₄, h⟩ := bind_eq_ok.1 h
    obtain ⟨rfl, rfl⟩ := pure_eq_ok.1 h
    obtain ⟨t, h₃⟩ := discard_eq_ok.1 h₃
    obtain ⟨i₂, hs₂, rfl, hk, ht⟩ := eat_yields _ hs₁ h₃
    obtain ⟨k, hs₃, he⟩ := hc .assignment hs₂ h₄
    rw [ht.eq_simpleAssign hk]
    exact ⟨k, hs₃, .initialized he⟩

theorem declarations_yields (hc : Sound g call) :
    Yields g (declarations g call) DerivesDeclarations := by
  intro n i s ds s' hs h
  obtain ⟨_, s₁, h₁, h⟩ := bind_eq_ok.1 h
  obtain ⟨i₁, hs₁, rfl⟩ := keyword_yields _ hs h₁
  obtain ⟨k, hk, hds⟩ := commaSeparated_yields (hc .declaration)
    DerivesDeclaration.length_lt hs₁ h
  exact ⟨k, hk, .mk hds⟩

theorem variableStatement_yields (hc : Sound g call) :
    Yields g (variableStatement g call) fun n => DerivesStatement (n + 1) := by
  intro n i s d s' hs h
  obtain ⟨ds, s₁, h₁, h⟩ := bind_eq_ok.1 h
  obtain ⟨_, s₂, h₂, h⟩ := bind_eq_ok.1 h
  obtain ⟨rfl, rfl⟩ := pure_eq_ok.1 h
  obtain ⟨i₁, hs₁, hds⟩ := hc .declarations hs h₁
  obtain ⟨k, hk, rfl⟩ := delimiter_yields _ hs₁ h₂
  exact ⟨k, hk, .variable hds⟩

theorem ifStatement_yields (hc : Sound g call) :
    Yields g (ifStatement g call) fun n => DerivesStatement (n + 1) := by
  intro n i s d s' hs h
  obtain ⟨_, s₁, h₁, h⟩ := bind_eq_ok.1 h
  obtain ⟨test, s₂, h₂, h⟩ := bind_eq_ok.1 h
  obtain ⟨body, s₃, h₃, h⟩ := bind_eq_ok.1 h
  obtain ⟨kind, s₄, h₄, h⟩ := bind_eq_ok.1 h
  obtain ⟨rfl, rfl⟩ := kind_eq_ok.1 h₄
  obtain ⟨i₁, hs₁, rfl⟩ := keyword_yields _ hs h₁
  obtain ⟨i₂, hs₂, i', rfl, htest⟩ := condition_yields hc hs₁ h₂
  obtain ⟨i₃, hs₃, hbody⟩ := hc .statement hs₂ h₃
  rw [hs₃.kind_eq] at h
  split at h
  · obtain ⟨_, s₅, h₅, h⟩ := bind_eq_ok.1 h
    obtain ⟨other, s₆, h₆, h⟩ := bind_eq_ok.1 h
    obtain ⟨rfl, rfl⟩ := pure_eq_ok.1 h
    obtain ⟨i₄, hs₄, rfl⟩ := keyword_yields _ hs₃ h₅
    obtain ⟨k, hk, hother⟩ := hc .statement hs₄ h₆
    exact ⟨k, hk, .ifElse htest hbody hother⟩
  · next helse =>
    obtain ⟨rfl, rfl⟩ := pure_eq_ok.1 h
    exact ⟨i₃, hs₃, .ifThen htest hbody helse⟩

theorem whileStatement_yields (hc : Sound g call) :
    Yields g (whileStatement g call) fun n => DerivesStatement (n + 1) := by
  intro n i s d s' hs h
  obtain ⟨_, s₁, h₁, h⟩ := bind_eq_ok.1 h
  obtain ⟨test, s₂, h₂, h⟩ := bind_eq_ok.1 h
  obtain ⟨body, s₃, h₃, h⟩ := bind_eq_ok.1 h
  obtain ⟨rfl, rfl⟩ := pure_eq_ok.1 h
  obtain ⟨i₁, hs₁, rfl⟩ := keyword_yields _ hs h₁
  obtain ⟨i₂, hs₂, i', rfl, htest⟩ := condition_yields hc hs₁ h₂
  obtain ⟨k, hk, hbody⟩ := hc .statement hs₂ h₃
  exact ⟨k, hk, .whileLoop htest hbody⟩

theorem doWhileStatement_yields (hc : Sound g call) :
    Yields g (doWhileStatement g call) fun n => DerivesStatement (n + 1) := by
  intro n i s d s' hs h
  obtain ⟨_, s₁, h₁, h⟩ := bind_eq_ok.1 h
  obtain ⟨body, s₂, h₂, h⟩ := bind_eq_ok.1 h
  obtain ⟨_, s₃, h₃, h⟩ := bind_eq_ok.1 h
  obtain ⟨test, s₄, h₄, h⟩ := bind_eq_ok.1 h
  obtain ⟨_, s₅, h₅, h⟩ := bind_eq_ok.1 h
  obtain ⟨rfl, rfl⟩ := pure_eq_ok.1 h
  obtain ⟨i₁, hs₁, rfl⟩ := keyword_yields _ hs h₁
  obtain ⟨i₂, hs₂, hbody⟩ := hc .statement hs₁ h₂
  obtain ⟨i₃, hs₃, rfl⟩ := keyword_yields _ hs₂ h₃
  obtain ⟨i₄, hs₄, i', rfl, htest⟩ := condition_yields hc hs₃ h₄
  obtain ⟨k, hk, rfl⟩ := delimiter_yields _ hs₄ h₅
  exact ⟨k, hk, .doWhile hbody htest⟩

theorem expressionUnless_yields (hc : Sound g call) (stop : Delimiter) :
    Yields g (expressionUnless call stop) DerivesOption := by
  intro n i s e s' hs h
  obtain ⟨kind, s₁, h₁, h⟩ := bind_eq_ok.1 h
  obtain ⟨rfl, rfl⟩ := kind_eq_ok.1 h₁
  split at h
  · obtain ⟨rfl, rfl⟩ := pure_eq_ok.1 h
    exact ⟨i, hs, .none⟩
  · obtain ⟨e, s₂, h₂, h⟩ := bind_eq_ok.1 h
    obtain ⟨rfl, rfl⟩ := pure_eq_ok.1 h
    obtain ⟨k, hk, he⟩ := hc .assignment hs h₂
    exact ⟨k, hk, .some he⟩

theorem forInit_yields (hc : Sound g call) : Yields g (forInit call) DerivesForInit := by
  intro n i s init s' hs h
  obtain ⟨kind, s₁, h₁, h⟩ := bind_eq_ok.1 h
  obtain ⟨-, rfl⟩ := kind_eq_ok.1 h₁
  split at h
  · obtain ⟨rfl, rfl⟩ := pure_eq_ok.1 h
    exact ⟨i, hs, .none⟩
  · obtain ⟨ds, s₂, h₂, h⟩ := bind_eq_ok.1 h
    obtain ⟨rfl, rfl⟩ := pure_eq_ok.1 h
    obtain ⟨k, hk, hds⟩ := hc .declarations hs h₂
    exact ⟨k, hk, .declarations hds⟩
  · obtain ⟨e, s₂, h₂, h⟩ := bind_eq_ok.1 h
    obtain ⟨rfl, rfl⟩ := pure_eq_ok.1 h
    obtain ⟨k, hk, he⟩ := hc .assignment hs h₂
    exact ⟨k, hk, .expression he⟩

theorem forStatement_yields (hc : Sound g call) :
    Yields g (forStatement g call) fun n => DerivesStatement (n + 1) := by
  intro n i s d s' hs h
  obtain ⟨_, s₁, h₁, h⟩ := bind_eq_ok.1 h
  obtain ⟨_, s₂, h₂, h⟩ := bind_eq_ok.1 h
  obtain ⟨init, s₃, h₃, h⟩ := bind_eq_ok.1 h
  obtain ⟨_, s₄, h₄, h⟩ := bind_eq_ok.1 h
  obtain ⟨test, s₅, h₅, h⟩ := bind_eq_ok.1 h
  obtain ⟨_, s₆, h₆, h⟩ := bind_eq_ok.1 h
  obtain ⟨update, s₇, h₇, h⟩ := bind_eq_ok.1 h
  obtain ⟨_, s₈, h₈, h⟩ := bind_eq_ok.1 h
  obtain ⟨body, s₉, h₉, h⟩ := bind_eq_ok.1 h
  obtain ⟨rfl, rfl⟩ := pure_eq_ok.1 h
  obtain ⟨i₁, hs₁, rfl⟩ := keyword_yields _ hs h₁
  obtain ⟨i₂, hs₂, rfl⟩ := delimiter_yields _ hs₁ h₂
  obtain ⟨i₃, hs₃, hinit⟩ := forInit_yields hc hs₂ h₃
  obtain ⟨i₄, hs₄, rfl⟩ := delimiter_yields _ hs₃ h₄
  obtain ⟨i₅, hs₅, htest⟩ := expressionUnless_yields hc _ hs₄ h₅
  obtain ⟨i₆, hs₆, rfl⟩ := delimiter_yields _ hs₅ h₆
  obtain ⟨i₇, hs₇, hupdate⟩ := expressionUnless_yields hc _ hs₆ h₇
  obtain ⟨i₈, hs₈, rfl⟩ := delimiter_yields _ hs₇ h₈
  obtain ⟨k, hk, hbody⟩ := hc .statement hs₈ h₉
  exact ⟨k, hk, .forLoop hinit htest hupdate hbody⟩

theorem parameters_yields : Yields g (parameters g) fun _ => DerivesParameters := by
  intro n i s names s' hs h
  obtain ⟨kind, s₁, h₁, h⟩ := bind_eq_ok.1 h
  obtain ⟨rfl, rfl⟩ := kind_eq_ok.1 h₁
  split at h
  · obtain ⟨rfl, rfl⟩ := pure_eq_ok.1 h
    exact ⟨i, hs, .none⟩
  · have hname : Yields g (identifier g) fun _ => DerivesName := by
      intro n i s name s' hs h
      obtain ⟨k, hk, rfl⟩ := identifier_yields hs h
      exact ⟨k, hk, .mk⟩
    obtain ⟨k, hk, hnames⟩ := commaSeparated_yields hname DerivesName.length_lt hs h
    exact ⟨k, hk, .some hnames⟩

theorem functionDeclaration_yields (hc : Sound g call) :
    Yields g (functionDeclaration g call) fun n => DerivesStatement (n + 1) := by
  intro n i s d s' hs h
  obtain ⟨_, s₁, h₁, h⟩ := bind_eq_ok.1 h
  obtain ⟨name, s₂, h₂, h⟩ := bind_eq_ok.1 h
  obtain ⟨_, s₃, h₃, h⟩ := bind_eq_ok.1 h
  obtain ⟨params, s₄, h₄, h⟩ := bind_eq_ok.1 h
  obtain ⟨_, s₅, h₅, h⟩ := bind_eq_ok.1 h
  obtain ⟨body, s₆, h₆, h⟩ := bind_eq_ok.1 h
  obtain ⟨rfl, rfl⟩ := pure_eq_ok.1 h
  obtain ⟨i₁, hs₁, rfl⟩ := keyword_yields _ hs h₁
  obtain ⟨i₂, hs₂, rfl⟩ := identifier_yields hs₁ h₂
  obtain ⟨i₃, hs₃, rfl⟩ := delimiter_yields _ hs₂ h₃
  obtain ⟨i₄, hs₄, hparams⟩ := parameters_yields hs₃ h₄
  obtain ⟨i₅, hs₅, rfl⟩ := delimiter_yields _ hs₄ h₅
  obtain ⟨k, hk, hbody⟩ := hc .block hs₅ h₆
  exact ⟨k, hk, .function hparams hbody⟩

theorem returnStatement_yields (hc : Sound g call) :
    Yields g (returnStatement g call) fun n => DerivesStatement (n + 1) := by
  intro n i s d s' hs h
  obtain ⟨_, s₁, h₁, h⟩ := bind_eq_ok.1 h
  obtain ⟨argument, s₂, h₂, h⟩ := bind_eq_ok.1 h
  obtain ⟨_, s₃, h₃, h⟩ := bind_eq_ok.1 h
  obtain ⟨rfl, rfl⟩ := pure_eq_ok.1 h
  obtain ⟨i₁, hs₁, rfl⟩ := keyword_yields _ hs h₁
  obtain ⟨i₂, hs₂, hargument⟩ := expressionUnless_yields hc _ hs₁ h₂
  obtain ⟨k, hk, rfl⟩ := delimiter_yields _ hs₂ h₃
  exact ⟨k, hk, .return hargument⟩

theorem superclass_yields : Yields g (superclass g) fun _ => DerivesSuperclass := by
  intro n i s parent s' hs h
  obtain ⟨kind, s₁, h₁, h⟩ := bind_eq_ok.1 h
  obtain ⟨rfl, rfl⟩ := kind_eq_ok.1 h₁
  split at h
  · obtain ⟨_, s₂, h₂, h⟩ := bind_eq_ok.1 h
    obtain ⟨name, s₃, h₃, h⟩ := bind_eq_ok.1 h
    obtain ⟨rfl, rfl⟩ := pure_eq_ok.1 h
    obtain ⟨i₁, hs₁, rfl⟩ := keyword_yields _ hs h₂
    obtain ⟨k, hk, rfl⟩ := identifier_yields hs₁ h₃
    exact ⟨k, hk, .some⟩
  · obtain ⟨rfl, rfl⟩ := pure_eq_ok.1 h
    exact ⟨i, hs, .none⟩

theorem classDeclaration_yields (hc : Sound g call) :
    Yields g (classDeclaration g call) fun n => DerivesStatement (n + 1) := by
  intro n i s d s' hs h
  obtain ⟨_, s₁, h₁, h⟩ := bind_eq_ok.1 h
  obtain ⟨name, s₂, h₂, h⟩ := bind_eq_ok.1 h
  obtain ⟨parent, s₃, h₃, h⟩ := bind_eq_ok.1 h
  obtain ⟨body, s₄, h₄, h⟩ := bind_eq_ok.1 h
  obtain ⟨rfl, rfl⟩ := pure_eq_ok.1 h
  obtain ⟨i₁, hs₁, rfl⟩ := keyword_yields _ hs h₁
  obtain ⟨i₂, hs₂, rfl⟩ := identifier_yields hs₁ h₂
  obtain ⟨i₃, hs₃, hparent⟩ := superclass_yields hs₂ h₃
  obtain ⟨k, hk, hbody⟩ := hc .block hs₃ h₄
  exact ⟨k, hk, .class hparent hbody⟩

theorem expressionStatement_yields (hc : Sound g call) :
    Yields g (expressionStatement g call) fun n => DerivesStatement (n + 1) := by
  intro n i s d s' hs h
  obtain ⟨e, s₁, h₁, h⟩ := bind_eq_ok.1 h
  obtain ⟨_, s₂, h₂, h⟩ := bind_eq_ok.1 h
  obtain ⟨rfl, rfl⟩ := pure_eq_ok.1 h
  obtain ⟨i₁, hs₁, he⟩ := hc .assignment hs h₁
  obtain ⟨k, hk, rfl⟩ := delimiter_yields _ hs₁ h₂
  exact ⟨k, hk, .expression he⟩

theorem statementOf_yields (hc : Sound g call) (kind : TokenKind) :
    Yields g (statementOf g call kind) fun n => DerivesStatement (n + 1) := by
  intro n i s d s' hs h
  unfold statementOf at h
  split at h
  · obtain ⟨_, s₁, h₁, h⟩ := bind_eq_ok.1 h
    obtain ⟨rfl, rfl⟩ := pure_eq_ok.1 h
    obtain ⟨k, hk, rfl⟩ := delimiter_yields _ hs h₁
    exact ⟨k, hk, .empty⟩
  · obtain ⟨body, s₁, h₁, h⟩ := bind_eq_ok.1 h
    obtain ⟨rfl, rfl⟩ := pure_eq_ok.1 h
    obtain ⟨k, hk, hbody⟩ := hc .block hs h₁
    exact ⟨k, hk, .block hbody⟩
  · exact hc .variableStatement hs h
  · exact hc .ifStatement hs h
  · exact hc .whileStatement hs h
  · exact hc .doWhileStatement hs h
  · exact hc .forStatement hs h
  · exact hc .functionDeclaration hs h
  · exact hc .classDeclaration hs h
  · exact hc .returnStatement hs h
  · exact hc .expressionStatement hs h

theorem statement_yields (hc : Sound g call) : Yields g (statement g call) DerivesStatement := by
  have hbody : Yields g (do statementOf g call (← Parse.kind))
      fun n => DerivesStatement (n + 1) := by
    intro n i s d s' hs h
    obtain ⟨kind, s₁, h₁, h⟩ := bind_eq_ok.1 h
    obtain ⟨rfl, rfl⟩ := kind_eq_ok.1 h₁
    exact statementOf_yields hc _ hs h
  intro n i s d s' hs h
  obtain ⟨k, hk, n, rfl, hd⟩ := nested_yields hbody hs h
  exact ⟨k, hk, hd⟩

/-! ## Expressions -/

theorem unknownOperator_eq_ok {α : Type} {t : Token} {expected : Expectation} {a : α}
    {s s' : ParseState} : (unknownOperator t expected : Parse α) s = .ok a s' ↔ False :=
  fail_eq_ok

theorem assignment_yields (hc : Sound g call) :
    Yields g (assignment g call) (DerivesExpr .assignment) := by
  intro n i s e s' hs hrun
  obtain ⟨hd, s₀, h₀, rfl⟩ := nested_eq_ok.1 hrun
  have hl := hs.levels
  obtain ⟨n, rfl⟩ : ∃ n', n = n' + 1 := ⟨n - 1, by omega⟩
  obtain ⟨left, s₁, h₁, h⟩ := bind_eq_ok.1 h₀
  obtain ⟨kind, s₂, h₂, h⟩ := bind_eq_ok.1 h
  obtain ⟨-, rfl⟩ := kind_eq_ok.1 h₂
  obtain ⟨i₁, hs₁, hleft, -⟩ := hc (.binary .loosest) hs.enter h₁
  split at h
  · next hk =>
    obtain ⟨t, s₃, h₃, h⟩ := bind_eq_ok.1 h
    obtain ⟨i₂, hs₂, rfl, ht, hsp⟩ := eat_yields _ hs₁ h₃
    cases hop : AssignOp.ofSymbol? t.text with
    | none =>
        simp only [hop] at h
        exact (unknownOperator_eq_ok.1 h).elim
    | some op =>
        simp only [hop] at h
        rw [hsp.eq_assign (ht ▸ hk) hop] at hleft
        split at h
        · obtain ⟨v, s₄, h₄, h⟩ := bind_eq_ok.1 h
          obtain ⟨rfl, rfl⟩ := pure_eq_ok.1 h
          obtain ⟨k, hs₃, hv⟩ := hc .assignment hs₂ h₄
          exact ⟨k, hs₃.leave (by omega), .assign hleft hv⟩
        · obtain ⟨v, s₄, h₄, h⟩ := bind_eq_ok.1 h
          obtain ⟨rfl, rfl⟩ := pure_eq_ok.1 h
          obtain ⟨k, hs₃, hv⟩ := hc .assignment hs₂ h₄
          exact ⟨k, hs₃.leave (by omega), .assignMember hleft hv⟩
        · exact (fail_eq_ok.1 h).elim
  · obtain ⟨rfl, rfl⟩ := pure_eq_ok.1 h
    exact ⟨i₁, hs₁.leave (by omega), .plain hleft⟩

/-- The right operand of a level leaves only operators of that level or looser ones. -/
theorem rightOperand_yields (hc : Sound g call) (level : BinaryLevel) :
    Yields g (rightOperand call level) fun n i e k => DerivesExpr level.operand n i e k ∧
      ∀ level', BinaryLevel.ofKind? (Lexeme.firstKind k) = some level' →
        level'.rank ≤ level.rank := by
  intro n i s e s' hs h
  unfold rightOperand at h
  unfold BinaryLevel.operand
  cases hl : level.tighter? with
  | none =>
      rw [hl] at h
      obtain ⟨k, hk, he⟩ := hc .unary hs h
      refine ⟨k, hk, he, fun level' _ => ?_⟩
      cases level <;> cases hl
      cases level' <;> decide
  | some next =>
      rw [hl] at h
      obtain ⟨k, hk, he, hstop⟩ := hc (.binary next) hs h
      refine ⟨k, hk, he, fun level' hlevel' => ?_⟩
      have hr := BinaryLevel.rank_of_tighter? hl
      simp only [BinaryLevel.admits, hlevel', Option.any_some, decide_eq_false_iff_not] at hstop
      omega

theorem makeBinary_ok {level : BinaryLevel} {t : Token} {l r e : Expr} {n : Nat}
    {i j k : List Lexeme} {s s' : ParseState} (hsp : t.lexeme.Spelled)
    (ht : t.lexeme.1 = level.kind) (h : makeBinary level t l r s = .ok e s')
    (hl : DerivesExpr (.binary level) n i l (t.lexeme :: j))
    (hr : DerivesExpr level.operand n j r k) : DerivesExpr (.binary level) n i e k ∧ s = s' := by
  unfold makeBinary at h
  split at h
  · next hlog =>
    cases hop : LogicalOp.ofSymbol? t.text with
    | none =>
        simp only [hop] at h
        exact (unknownOperator_eq_ok.1 h).elim
    | some op =>
        simp only [hop] at h
        obtain ⟨rfl, rfl⟩ := pure_eq_ok.1 h
        obtain ⟨rfl, hlex⟩ := hsp.eq_logical ht hlog hop
        rw [hlex] at hl
        exact ⟨.logical hl hr, rfl⟩
  · next hlog =>
    cases hop : BinaryOp.ofSymbol? t.text with
    | none =>
        simp only [hop] at h
        exact (unknownOperator_eq_ok.1 h).elim
    | some op =>
        simp only [hop] at h
        obtain ⟨rfl, rfl⟩ := pure_eq_ok.1 h
        obtain ⟨rfl, hlex⟩ := hsp.eq_binary ht (by simpa using hlog) hop
        rw [hlex] at hl
        exact ⟨.binary hl hr, rfl⟩

/-- **Climbing is sound.** What the loop holds is an expression of some level `top`, and an
operator that follows is of that level or looser. So the next operator finds a left operand of its
own level, and `top` only descends. -/
theorem binary_yields (hc : Sound g call) (min : BinaryLevel) :
    Yields g (binary g call min) (Production.binary min).Derives := by
  intro n i s e s' hs h
  obtain ⟨first, s₁, h₁, h⟩ := bind_eq_ok.1 h
  obtain ⟨i₁, hs₁, hfirst⟩ := hc .unary hs h₁
  obtain ⟨k, hk, ⟨top, hmin, he, -⟩, hend⟩ := whileKind_invariant
    (P := fun e j => ∃ top, min.rank ≤ BinaryLevel.rank top ∧ DerivesExpr (.binary top) n i e j ∧
      ∀ level, BinaryLevel.ofKind? (Lexeme.firstKind j) = some level → level.rank ≤ top.rank)
    h hs₁ ⟨.multiplicative, by cases min <;> decide, .operand hfirst,
      fun level _ => by cases level <;> decide⟩ rfl (by
      rintro left e j s s' hs ⟨top, hmin, hleft, htop⟩ hmore h
      obtain ⟨kind, s₁, h₁, h⟩ := bind_eq_ok.1 h
      obtain ⟨hkind, rfl⟩ := kind_eq_ok.1 h₁
      rw [hs.kind_eq] at hkind
      cases hlevel : BinaryLevel.ofKind? kind with
      | none =>
          rw [hkind] at hmore
          simp [BinaryLevel.admits, hlevel] at hmore
      | some level =>
          simp only [hlevel] at h
          obtain ⟨t, s₂, h₂, h⟩ := bind_eq_ok.1 h
          obtain ⟨right, s₃, h₃, h⟩ := bind_eq_ok.1 h
          obtain ⟨j₁, hs₂, rfl, ht, hsp⟩ := eat_yields _ hs h₂
          rw [← ht] at hlevel
          obtain ⟨k, hs₃, hright, hstop⟩ := rightOperand_yields hc level hs₂ h₃
          have hle : level.rank ≤ top.rank := htop level hlevel
          obtain ⟨he, rfl⟩ := makeBinary_ok hsp (BinaryLevel.ofKind?_eq_some_iff.1 hlevel) h
            (hleft.loosen nofun (Phrase.rank_binary_le hle)) hright
          have hadmits : min.rank ≤ level.rank := by
            simpa [BinaryLevel.admits, hlevel] using hmore
          exact ⟨k, hs₃, Nat.lt_succ_of_lt hright.length_lt, level, hadmits, he, hstop⟩)
  exact ⟨k, hk, he.loosen nofun (Phrase.rank_binary_le hmin), hend⟩

theorem unary_yields (hc : Sound g call) : Yields g (unary g call) (DerivesExpr .unary) := by
  intro n i s e s' hs h
  obtain ⟨kind, s₁, h₁, h⟩ := bind_eq_ok.1 h
  obtain ⟨-, rfl⟩ := kind_eq_ok.1 h₁
  split at h
  · next hk =>
    obtain ⟨t, s₂, h₂, h⟩ := bind_eq_ok.1 h
    obtain ⟨i₁, hs₁, rfl, ht, hsp⟩ := eat_yields _ hs h₂
    cases hop : UnaryOp.ofSymbol? t.text with
    | none =>
        simp only [hop] at h
        exact (unknownOperator_eq_ok.1 h).elim
    | some op =>
        simp only [hop] at h
        obtain ⟨e, s₃, h₃, h⟩ := bind_eq_ok.1 h
        obtain ⟨rfl, rfl⟩ := pure_eq_ok.1 h
        obtain ⟨k, hk', n, rfl, he⟩ := nested_yields (hc .unary) hs₁ h₃
        rw [hsp.eq_unary (ht ▸ hk) hop]
        exact ⟨k, hk', .unary he⟩
  · obtain ⟨k, hk, he⟩ := hc .callMember hs h
    exact ⟨k, hk, .leftHandSide he⟩

theorem callTail_yields (hc : Sound g call) {callee e : Expr} {n : Nat} {i j : List Lexeme}
    {s s' : ParseState} (hs : s.Faces g n j)
    (hfirst : ∀ {as k}, DerivesArguments n j as k →
      DerivesExpr .callMember n i (.call callee as) k)
    (h : callTail call callee s = .ok e s') :
    ∃ k, s'.Faces g n k ∧ DerivesExpr .callMember n i e k := by
  obtain ⟨as, s₁, h₁, h⟩ := bind_eq_ok.1 h
  obtain ⟨i₁, hs₁, has⟩ := hc .arguments hs h₁
  obtain ⟨k, hk, he, -⟩ := whileKind_invariant
    (P := fun e j => DerivesExpr .callMember n i e j) h hs₁ (hfirst has) rfl (by
      intro f e j s s' hs hf _ h
      obtain ⟨as, s₁, h₁, h⟩ := bind_eq_ok.1 h
      obtain ⟨rfl, rfl⟩ := pure_eq_ok.1 h
      obtain ⟨k, hk, has⟩ := hc .arguments hs h₁
      exact ⟨k, hk, DerivesArguments.length_lt has, .call hf has⟩)
  exact ⟨k, hk, he⟩

theorem callMember_yields (hc : Sound g call) :
    Yields g (callMember g call) (DerivesExpr .callMember) := by
  intro n i s e s' hs h
  obtain ⟨kind, s₁, h₁, h⟩ := bind_eq_ok.1 h
  obtain ⟨-, rfl⟩ := kind_eq_ok.1 h₁
  split at h
  · obtain ⟨_, s₂, h₂, h⟩ := bind_eq_ok.1 h
    obtain ⟨i₁, hs₁, rfl⟩ := keyword_yields _ hs h₂
    exact callTail_yields hc hs₁ .superCall h
  · obtain ⟨callee, s₂, h₂, h⟩ := bind_eq_ok.1 h
    obtain ⟨kind, s₃, h₃, h⟩ := bind_eq_ok.1 h
    obtain ⟨-, rfl⟩ := kind_eq_ok.1 h₃
    obtain ⟨i₁, hs₁, hcallee⟩ := hc .member hs h₂
    split at h
    · exact callTail_yields hc hs₁ (.call (.uncalled hcallee)) h
    · obtain ⟨rfl, rfl⟩ := pure_eq_ok.1 h
      exact ⟨i₁, hs₁, .uncalled hcallee⟩

theorem member_yields (hc : Sound g call) : Yields g (member g call) (DerivesExpr .member) := by
  intro n i s e s' hs h
  obtain ⟨object, s₁, h₁, h⟩ := bind_eq_ok.1 h
  obtain ⟨i₁, hs₁, hobject⟩ := hc .primary hs h₁
  obtain ⟨k, hk, he, -⟩ := whileKind_invariant
    (P := fun e j => DerivesExpr .member n i e j) h hs₁ (.primary hobject) rfl (by
      intro o e j s s' hs ho _ h
      obtain ⟨kind, s₁, h₁, h⟩ := bind_eq_ok.1 h
      obtain ⟨-, rfl⟩ := kind_eq_ok.1 h₁
      split at h
      · obtain ⟨_, s₂, h₂, h⟩ := bind_eq_ok.1 h
        obtain ⟨name, s₃, h₃, h⟩ := bind_eq_ok.1 h
        obtain ⟨rfl, rfl⟩ := pure_eq_ok.1 h
        obtain ⟨j₁, hs₁, rfl⟩ := delimiter_yields _ hs h₂
        obtain ⟨k, hk, rfl⟩ := identifier_yields hs₁ h₃
        exact ⟨k, hk, by simp only [List.length_cons]; omega, .dot ho⟩
      · obtain ⟨_, s₂, h₂, h⟩ := bind_eq_ok.1 h
        obtain ⟨property, s₃, h₃, h⟩ := bind_eq_ok.1 h
        obtain ⟨_, s₄, h₄, h⟩ := bind_eq_ok.1 h
        obtain ⟨rfl, rfl⟩ := pure_eq_ok.1 h
        obtain ⟨j₁, hs₁, rfl⟩ := delimiter_yields _ hs h₂
        obtain ⟨j₂, hs₂, hproperty⟩ := hc .assignment hs₁ h₃
        obtain ⟨k, hk, rfl⟩ := delimiter_yields _ hs₂ h₄
        have hlt := DerivesExpr.length_lt hproperty
        simp only [List.length_cons] at hlt
        exact ⟨k, hk, by simp only [List.length_cons]; omega, .index ho hproperty⟩)
  exact ⟨k, hk, he⟩

theorem arguments_yields (hc : Sound g call) :
    Yields g (arguments g call) DerivesArguments := by
  intro n i s es s' hs h
  obtain ⟨_, s₁, h₁, h⟩ := bind_eq_ok.1 h
  obtain ⟨kind, s₂, h₂, h⟩ := bind_eq_ok.1 h
  obtain ⟨-, rfl⟩ := kind_eq_ok.1 h₂
  obtain ⟨i₁, hs₁, rfl⟩ := delimiter_yields _ hs h₁
  split at h
  · obtain ⟨es, s₃, h₃, h⟩ := bind_eq_ok.1 h
    obtain ⟨_, s₄, h₄, h⟩ := bind_eq_ok.1 h
    obtain ⟨rfl, rfl⟩ := pure_eq_ok.1 h
    obtain ⟨rfl, rfl⟩ := pure_eq_ok.1 h₃
    obtain ⟨k, hk, rfl⟩ := delimiter_yields _ hs₁ h₄
    exact ⟨k, hk, .none⟩
  · obtain ⟨es, s₃, h₃, h⟩ := bind_eq_ok.1 h
    obtain ⟨_, s₄, h₄, h⟩ := bind_eq_ok.1 h
    obtain ⟨rfl, rfl⟩ := pure_eq_ok.1 h
    obtain ⟨i₂, hs₂, hes⟩ := commaSeparated_yields (hc .assignment) DerivesExpr.length_lt hs₁ h₃
    obtain ⟨k, hk, rfl⟩ := delimiter_yields _ hs₂ h₄
    exact ⟨k, hk, .some (.ofCommaSeparated hes)⟩

theorem derivesLiteral_of_literal? {t : Token} {e : Expr} (hsp : t.lexeme.Spelled)
    (h : literal? t = some e) : DerivesLiteral t.lexeme e := by
  obtain ⟨kind, text, span⟩ := t
  unfold literal? at h
  dsimp only at h
  split at h
  · obtain ⟨v, hv, h⟩ := Option.bind_eq_some_iff.1 h
    split at h
    · next hf =>
      cases h
      exact .number hv hf
    · cases h
  · cases h
    obtain ⟨quote, body, -, -, htext⟩ := hsp
    have hun : unquoted text = String.ofList body := by
      rw [unquoted, htext]
      simp
    have hlex : text = String.ofList (quote :: body ++ [quote]) := by
      rw [← htext, String.ofList_toList]
    rw [hun]
    show DerivesLiteral (.string, text) _
    rw [hlex]
    exact .string
  · cases h
    rw [hsp.eq_keyword rfl]
    exact .trueWord
  · cases h
    rw [hsp.eq_keyword rfl]
    exact .falseWord
  · cases h
    rw [hsp.eq_keyword rfl]
    exact .nullWord
  · cases h

theorem literal_yields : Yields g (literal g) (DerivesExpr .primary) := by
  intro n i s e s' hs h
  obtain ⟨t, s₁, h₁, h⟩ := bind_eq_ok.1 h
  change EStateM.Result.ok (s.lookahead g) s = .ok t s₁ at h₁
  cases h₁
  cases hlit : literal? (s.lookahead g) with
  | none =>
      simp only [hlit] at h
      exact (fail_eq_ok.1 h).elim
  | some e =>
      simp only [hlit] at h
      obtain ⟨_, s₂, h₂, h⟩ := bind_eq_ok.1 h
      obtain ⟨rfl, rfl⟩ := pure_eq_ok.1 h
      obtain ⟨t, h₂⟩ := discard_eq_ok.1 h₂
      obtain ⟨rest, hp, -⟩ := eat_eq_ok.1 h₂
      have ht : s.lookahead g = t := by rw [ParseState.lookahead, hp]; rfl
      obtain ⟨k, hk, rfl, -, hsp⟩ := eat_yields _ hs h₂
      exact ⟨k, hk, .literal (derivesLiteral_of_literal? hsp (ht ▸ hlit))⟩

theorem expressionExpected_eq_ok {e : Expr} {s s' : ParseState} :
    expressionExpected g s = .ok e s' ↔ False := by
  obtain ⟨pending, consumed, depth⟩ := s
  cases pending with
  | nil =>
      show unexpected g .expression ⟨[], consumed, depth⟩ = _ ↔ _
      exact unexpected_eq_ok
  | cons t rest => exact fail_eq_ok

theorem new_yields (hc : Sound g call) :
    Yields g (new g call) fun n => DerivesExpr .primary (n + 1) := by
  intro n i s e s' hs h
  obtain ⟨_, s₁, h₁, h⟩ := bind_eq_ok.1 h
  obtain ⟨callee, s₂, h₂, h⟩ := bind_eq_ok.1 h
  obtain ⟨as, s₃, h₃, h⟩ := bind_eq_ok.1 h
  obtain ⟨rfl, rfl⟩ := pure_eq_ok.1 h
  obtain ⟨i₁, hs₁, rfl⟩ := keyword_yields _ hs h₁
  obtain ⟨i₂, hs₂, hcallee⟩ := hc .member hs₁ h₂
  obtain ⟨k, hk, has⟩ := hc .arguments hs₂ h₃
  exact ⟨k, hk, .new hcallee has⟩

theorem primary_yields (hc : Sound g call) :
    Yields g (primary g call) (DerivesExpr .primary) := by
  intro n i s e s' hs h
  obtain ⟨kind, s₁, h₁, h⟩ := bind_eq_ok.1 h
  obtain ⟨-, rfl⟩ := kind_eq_ok.1 h₁
  split at h
  · exact literal_yields hs h
  · split at h
    · obtain ⟨k, hk, i', rfl, he⟩ := condition_yields hc hs h
      exact ⟨k, hk, .parenthesized he⟩
    · obtain ⟨name, s₂, h₂, h⟩ := bind_eq_ok.1 h
      obtain ⟨rfl, rfl⟩ := pure_eq_ok.1 h
      obtain ⟨k, hk, rfl⟩ := identifier_yields hs h₂
      exact ⟨k, hk, .name⟩
    · obtain ⟨_, s₂, h₂, h⟩ := bind_eq_ok.1 h
      obtain ⟨rfl, rfl⟩ := pure_eq_ok.1 h
      obtain ⟨k, hk, rfl⟩ := keyword_yields _ hs h₂
      exact ⟨k, hk, .this⟩
    · obtain ⟨k, hk, n, rfl, he⟩ := nested_yields (hc .new) hs h
      exact ⟨k, hk, he⟩
    · exact (expressionExpected_eq_ok.1 h).elim

/-! ## Runs -/

theorem body_sound (hc : Sound g call) : Sound g (body g call)
  | .statement => statement_yields hc
  | .block => block_yields hc
  | .variableStatement => variableStatement_yields hc
  | .declarations => declarations_yields hc
  | .declaration => declaration_yields hc
  | .ifStatement => ifStatement_yields hc
  | .whileStatement => whileStatement_yields hc
  | .doWhileStatement => doWhileStatement_yields hc
  | .forStatement => forStatement_yields hc
  | .functionDeclaration => functionDeclaration_yields hc
  | .returnStatement => returnStatement_yields hc
  | .classDeclaration => classDeclaration_yields hc
  | .expressionStatement => expressionStatement_yields hc
  | .assignment => assignment_yields hc
  | .binary min => binary_yields hc min
  | .unary => unary_yields hc
  | .callMember => callMember_yields hc
  | .member => member_yields hc
  | .arguments => arguments_yields hc
  | .primary => primary_yields hc
  | .new => new_yields hc

/-- **Soundness.** Whatever a run of a production yields is derived by what it has read. -/
theorem run_sound (calls : Nat) : Sound g (run g calls) := by
  induction calls with
  | zero =>
      intro p n i s a s' _ h
      exact (throw_eq_ok.1 h).elim
  | succ calls ih => exact body_sound ih

end Grammar

end LetterLang

import LetterLang.Proofs.Alike

/-!
# The productions are built alike

Each production is built from the steps that `Alike` knows, whatever the settings, the calls and
the tokens of the two parses are (`Grammar.body_alike`). The index `height` of a production bounds
its calls: outside of a deeper level of nesting a production calls only lower ones.

Paired with itself, a production shows what its own steps do: whenever it succeeds it has consumed
a token, and it has come back to the level of nesting that it started from (`Grammar.run_advances`).
-/

namespace LetterLang

open Parse

variable {g : Setting} {P : TwoRuns} {h : Nat} {b c : Bool} {α : Type}

/-! ## Steps that every production uses -/

namespace Parse.Advances

theorem delimiter (d : Delimiter) : Advances true (Parse.delimiter g d) := by
  intro s u s' h
  obtain ⟨t, h⟩ := discard_eq_ok.1 h
  exact eat _ s t s' h

theorem identifier : Advances true (Parse.identifier g) :=
  (eat _).bind fun _ => pure _

end Parse.Advances

namespace Alike

theorem discard_eat (k : TokenKind) :
    Alike P h b c (discard (Parse.eat P.left k)) (discard (Parse.eat P.right k)) := by
  rw [discard_eq_bind, discard_eq_bind]
  exact .eat k fun _ _ _ _ => .pure ()

theorem delimiter (d : Delimiter) :
    Alike P h b c (Parse.delimiter P.left d) (Parse.delimiter P.right d) :=
  .discard_eat _

theorem keyword (k : Keyword) :
    Alike P h b c (Parse.keyword P.left k) (Parse.keyword P.right k) :=
  .discard_eat _

theorem identifier : Alike P h b c (Parse.identifier P.left) (Parse.identifier P.right) := by
  refine .eat _ fun t u htu _ => ?_
  have htext : t.text = u.text := congrArg Prod.snd (P.lexeme_eq htu)
  rw [htext]
  exact .pure _

theorem rounds {more : TokenKind → Bool} {step step' : α → Parse α} {a : α}
    (hend : more .endOfInput = false) (hl : ∀ a, Advances true (step a))
    (hr : ∀ a, Advances true (step' a)) (hstep : ∀ a, Alike P h true false (step a) (step' a)) :
    Alike P h b false (whileKind more step a) (whileKind more step' a) := by
  show Alike P h b false (whileKind more (fun a => kind >>= fun _ => step a) a)
    (whileKind more (fun a => kind >>= fun _ => step' a) a)
  exact .loop hend (.of_advances hl) (.of_advances hr) fun a _ _ => hstep a

theorem commaSeparated {item item' : Parse α} (hl : Advances true item)
    (hr : Advances true item') (hitem : ∀ b c, Alike P h b c item item') :
    Alike P h b c (Parse.commaSeparated P.left item) (Parse.commaSeparated P.right item') := by
  refine .bind (hitem b c) fun first => .bind (.rounds rfl ?_ ?_ ?_) fun _ => .pure _
  · intro items
    exact (Advances.delimiter _).bind fun _ => hl.bind fun _ => .pure _
  · intro items
    exact (Advances.delimiter _).bind fun _ => hr.bind fun _ => .pure _
  · intro items
    exact .bind (.delimiter _) fun _ => .bind (hitem true false) fun _ => .pure _

end Alike

namespace Grammar

/-! ## Statements -/

theorem statementsUntil_alike (stop : TokenKind) (hh : 1 < h) :
    Alike P h b false (statementsUntil P.callLeft stop) (statementsUntil P.callRight stop) := by
  refine .bind (.rounds (by simp) ?_ ?_ ?_) fun _ => .pure _
  · intro items
    exact (P.advancesLeft _).bind fun _ => .pure _
  · intro items
    exact (P.advancesRight _).bind fun _ => .pure _
  · intro items
    exact .bind (.call .statement hh) fun _ => .pure _

theorem statementOf_alike (k : TokenKind) :
    Alike P Production.maxHeight b true (statementOf P.left P.callLeft k)
      (statementOf P.right P.callRight k) := by
  unfold statementOf
  split
  · exact .bind (.delimiter _) fun _ => .pure _
  · exact .bind (.call .block (by decide)) fun _ => .pure _
  · exact .call .variableStatement (by decide)
  · exact .call .ifStatement (by decide)
  · exact .call .whileStatement (by decide)
  · exact .call .doWhileStatement (by decide)
  · exact .call .forStatement (by decide)
  · exact .call .functionDeclaration (by decide)
  · exact .call .classDeclaration (by decide)
  · exact .call .returnStatement (by decide)
  · exact .call .expressionStatement (by decide)

theorem statement_alike :
    Alike P 1 true true (statement P.left P.callLeft) (statement P.right P.callRight) :=
  .nested (.look statementOf_alike)

theorem block_alike :
    Alike P 2 true true (block P.left P.callLeft) (block P.right P.callRight) :=
  .bind (.delimiter _) fun _ => .bind (statementsUntil_alike _ (by decide)) fun _ =>
    .bind (.delimiter _) fun _ => .pure _

theorem variableStatement_alike : Alike P 4 true true (variableStatement P.left P.callLeft)
    (variableStatement P.right P.callRight) :=
  .bind (.call .declarations (by decide)) fun _ => .bind (.delimiter _) fun _ =>
    .pure _

theorem declarations_alike :
    Alike P 3 true true (declarations P.left P.callLeft) (declarations P.right P.callRight) :=
  .bind (.keyword _) fun _ => .commaSeparated (P.advancesLeft _) (P.advancesRight _)
    fun _ _ => .call .declaration (by decide)

theorem declaration_alike :
    Alike P 2 true true (declaration P.left P.callLeft) (declaration P.right P.callRight) := by
  refine .bind .identifier fun name => .look fun k => ?_
  split
  · exact .pure _
  · exact .pure _
  · exact .bind (.discard_eat _) fun _ => .bind (.call .assignment (by decide))
      fun _ => .pure _

theorem condition_alike (hh : 1 < h) :
    Alike P h b c (condition P.left P.callLeft) (condition P.right P.callRight) :=
  .bind (.delimiter _) fun _ => .bind (.call .assignment hh) fun _ =>
    .bind (.delimiter _) fun _ => .pure _

theorem ifStatement_alike :
    Alike P 2 true true (ifStatement P.left P.callLeft) (ifStatement P.right P.callRight) := by
  refine .bind (.keyword _) fun _ => .bind (condition_alike (by decide)) fun test =>
    .bind (.call .statement (by decide)) fun consequent =>
      .look fun k => ?_
  split
  · exact .bind (.keyword _) fun _ => .bind (.call .statement (by decide)) fun _ =>
      .pure _
  · exact .pure _

theorem whileStatement_alike :
    Alike P 2 true true (whileStatement P.left P.callLeft)
      (whileStatement P.right P.callRight) :=
  .bind (.keyword _) fun _ => .bind (condition_alike (by decide)) fun _ =>
    .bind (.call .statement (by decide)) fun _ => .pure _

theorem doWhileStatement_alike :
    Alike P 2 true true (doWhileStatement P.left P.callLeft)
      (doWhileStatement P.right P.callRight) :=
  .bind (.keyword _) fun _ => .bind (.call .statement (by decide)) fun _ =>
    .bind (.keyword _) fun _ => .bind (condition_alike (by decide))
      fun _ => .bind (.delimiter _) fun _ => .pure _

theorem expressionUnless_alike (stop : Delimiter) (hh : 1 < h) :
    Alike P h b false (expressionUnless P.callLeft stop) (expressionUnless P.callRight stop) := by
  refine .look fun k => ?_
  split
  · exact .pure _
  · exact .bind (.call .assignment hh) fun _ => .pure _

theorem forInit_alike (hh : 3 < h) :
    Alike P h b false (forInit P.callLeft) (forInit P.callRight) := by
  refine .look fun k => ?_
  split
  · exact .pure _
  · exact .bind (.call .declarations hh) fun _ => .pure _
  · exact .bind (.call .assignment (Nat.lt_of_lt_of_le (by decide) hh)) fun _ => .pure _

theorem forStatement_alike :
    Alike P 4 true true (forStatement P.left P.callLeft) (forStatement P.right P.callRight) :=
  .bind (.keyword _) fun _ => .bind (.delimiter _) fun _ =>
    .bind (forInit_alike (by decide)) fun _ => .bind (.delimiter _) fun _ =>
      .bind (expressionUnless_alike _ (by decide)) fun _ => .bind (.delimiter _)
        fun _ => .bind (expressionUnless_alike _ (by decide)) fun _ =>
          .bind (.delimiter _) fun _ =>
            .bind (.call .statement (by decide)) fun _ => .pure _

theorem parameters_alike : Alike P h b false (parameters P.left) (parameters P.right) := by
  refine .look fun k => ?_
  split
  · exact .pure _
  · exact .commaSeparated .identifier .identifier fun _ _ => .identifier

theorem functionDeclaration_alike :
    Alike P 3 true true (functionDeclaration P.left P.callLeft)
      (functionDeclaration P.right P.callRight) :=
  .bind (.keyword _) fun _ => .bind .identifier fun _ =>
    .bind (.delimiter _) fun _ => .bind parameters_alike fun _ =>
      .bind (.delimiter _) fun _ => .bind (.call .block (by decide))
        fun _ => .pure _

theorem returnStatement_alike :
    Alike P 2 true true (returnStatement P.left P.callLeft)
      (returnStatement P.right P.callRight) :=
  .bind (.keyword _) fun _ => .bind (expressionUnless_alike _ (by decide)) fun _ =>
    .bind (.delimiter _) fun _ => .pure _

theorem superclass_alike : Alike P h b false (superclass P.left) (superclass P.right) := by
  refine .look fun k => ?_
  split
  · exact .bind (.keyword _) fun _ => .bind .identifier fun _ => .pure _
  · exact .pure _

theorem classDeclaration_alike :
    Alike P 3 true true (classDeclaration P.left P.callLeft)
      (classDeclaration P.right P.callRight) :=
  .bind (.keyword _) fun _ => .bind .identifier fun _ => .bind superclass_alike
    fun _ => .bind (.call .block (by decide)) fun _ => .pure _

theorem expressionStatement_alike :
    Alike P 2 true true (expressionStatement P.left P.callLeft)
      (expressionStatement P.right P.callRight) :=
  .bind (.call .assignment (by decide)) fun _ => .bind (.delimiter _) fun _ => .pure _

/-! ## Operators

The text of an operator token that is spelled is an operator of its family. -/

theorem assignOp_of_spelled {t : Lexeme} (ht : t.Spelled) (hk : t.1.isAssignment = true) :
    AssignOp.ofSymbol? t.2 ≠ none := by
  obtain ⟨kind, text⟩ := t
  cases kind <;> simp only [TokenKind.isAssignment, Bool.false_eq_true] at hk
  · obtain rfl : text = "=" := ht
    decide
  · rcases ht with rfl | rfl | rfl | rfl <;> decide

theorem logicalOp_of_spelled {t : Lexeme} {level : BinaryLevel} (ht : t.Spelled)
    (hk : t.1 = level.kind) (hl : level.isLogical = true) : LogicalOp.ofSymbol? t.2 ≠ none := by
  obtain ⟨kind, text⟩ := t
  obtain rfl : kind = level.kind := hk
  cases level <;> simp only [BinaryLevel.isLogical, Bool.false_eq_true] at hl
  · obtain rfl : text = "||" := ht
    decide
  · obtain rfl : text = "&&" := ht
    decide

theorem binaryOp_of_spelled {t : Lexeme} {level : BinaryLevel} (ht : t.Spelled)
    (hk : t.1 = level.kind) (hl : level.isLogical = false) : BinaryOp.ofSymbol? t.2 ≠ none := by
  obtain ⟨kind, text⟩ := t
  obtain rfl : kind = level.kind := hk
  cases level <;> simp only [BinaryLevel.isLogical, Bool.true_eq_false] at hl
  · rcases ht with rfl | rfl <;> decide
  · rcases ht with rfl | rfl | rfl | rfl <;> decide
  · rcases ht with rfl | rfl <;> decide
  · rcases ht with rfl | rfl <;> decide

theorem unaryOp_of_spelled {t : Lexeme} (ht : t.Spelled)
    (hk : t.1 = .additive ∨ t.1 = .logicalNot) : UnaryOp.ofSymbol? t.2 ≠ none := by
  obtain ⟨kind, text⟩ := t
  rcases hk with rfl | rfl
  · rcases ht with rfl | rfl <;> decide
  · obtain rfl : text = "!" := ht
    decide

/-! ## Expressions -/

theorem assignmentInside_alike :
    Alike P Production.maxHeight true true (assignmentInside P.left P.callLeft)
      (assignmentInside P.right P.callRight) := by
  refine .bind (.call (.binary .loosest) (by decide)) fun left => .look fun k => ?_
  split
  · next hk =>
    refine .eat k fun t u htu hkind => ?_
    have htext : u.text = t.text := congrArg Prod.snd (P.lexeme_eq htu).symm
    rw [htext]
    cases hop : AssignOp.ofSymbol? t.text with
    | none =>
        subst hkind
        exact .noOperator htu fun ht => assignOp_of_spelled ht hk hop
    | some op =>
        cases left with
        | identifier name => exact .bind (.call .assignment (by decide)) fun _ => .pure _
        | member object property computed =>
            exact .bind (.call .assignment (by decide)) fun _ => .pure _
        | _ => exact .noTarget htu (hkind ▸ hk)
  · exact .pure _

theorem assignment_alike :
    Alike P 1 true true (assignment P.left P.callLeft) (assignment P.right P.callRight) :=
  .nested assignmentInside_alike

/-- With the operator of its level two operands always make an expression. -/
theorem makeBinary_of_spelled {level : BinaryLevel} {t : Token} (ht : t.lexeme.Spelled)
    (hk : t.kind = level.kind) (l r : Expr) : ∃ e, makeBinary level t l r = Pure.pure e := by
  unfold makeBinary
  split
  · next hl =>
    cases hop : LogicalOp.ofSymbol? t.text with
    | none => exact absurd hop (logicalOp_of_spelled ht hk hl)
    | some op => exact ⟨.logical op l r, rfl⟩
  · next hl =>
    cases hop : BinaryOp.ofSymbol? t.text with
    | none => exact absurd hop (binaryOp_of_spelled ht hk (by simpa using hl))
    | some op => exact ⟨.binary op l r, rfl⟩

theorem makeBinary_alike {level : BinaryLevel} {t u : Token} {l r : Expr} (htu : P.Meets t u)
    (hk : t.kind = level.kind) :
    Alike P h b false (makeBinary level t l r) (makeBinary level u l r) := by
  have htext : u.text = t.text := congrArg Prod.snd (P.lexeme_eq htu).symm
  unfold makeBinary
  rw [htext]
  split
  · next hl =>
    cases hop : LogicalOp.ofSymbol? t.text with
    | none => exact .noOperator htu fun ht => logicalOp_of_spelled ht hk hl hop
    | some op => exact .pure _
  · next hl =>
    cases hop : BinaryOp.ofSymbol? t.text with
    | none => exact .noOperator htu fun ht => binaryOp_of_spelled ht hk (by simpa using hl) hop
    | some op => exact .pure _

/-- The right operand of an operator is lower than any level that admits the operator. -/
theorem rightOperand_alike {min level : BinaryLevel} (hmin : min.rank ≤ level.rank) :
    Alike P (Production.binary min).height b c (rightOperand P.callLeft level)
      (rightOperand P.callRight level) := by
  have hrank : level.rank ≤ 5 := by cases level <;> decide
  unfold rightOperand
  cases hl : level.tighter? with
  | none => exact .call .unary (by simp only [Production.height]; omega)
  | some next =>
      have hnext := BinaryLevel.rank_of_tighter? hl
      have hrank' : next.rank ≤ 5 := by cases next <;> decide
      exact .call (.binary next) (by simp only [Production.height]; omega)

theorem advances_rightOperand {call : Production.Calls} (hcall : ∀ p, Advances true (call p))
    (level : BinaryLevel) : Advances true (rightOperand call level) := by
  unfold rightOperand
  split
  · exact hcall _
  · exact hcall _

theorem advances_makeBinary {level : BinaryLevel} {t : Token} {l r : Expr} :
    Advances false (makeBinary level t l r) := by
  unfold makeBinary
  split <;> split
  · exact .pure _
  · exact .of_fails fun s a s' => fail_eq_ok.1
  · exact .pure _
  · exact .of_fails fun s a s' => fail_eq_ok.1

theorem binaryStep_progress {call : Production.Calls} (hcall : ∀ p, Advances true (call p))
    (min : BinaryLevel) : Progress min.admits (binaryStep g call) := by
  intro left s e s' hmore hok
  rw [binaryStep, kind_bind] at hok
  cases hl : BinaryLevel.ofKind? s.kind with
  | none => simp [BinaryLevel.admits, hl] at hmore
  | some level =>
      rw [hl] at hok
      have hround : Advances true (do
          let t ← eat g s.kind
          let right ← rightOperand call level
          makeBinary level t left right : Parse Expr) :=
        (Advances.eat _).bind fun t => (advances_rightOperand hcall level).bind fun right =>
          advances_makeBinary
      exact (hround s e s' hok).length_lt

theorem binaryRounds_alike (min : BinaryLevel) (first : Expr) :
    Alike P (Production.binary min).height b false
      (whileKind min.admits (binaryStep P.left P.callLeft) first)
      (whileKind min.admits (binaryStep P.right P.callRight) first) := by
  refine .loop rfl (binaryStep_progress P.advancesLeft min)
    (binaryStep_progress P.advancesRight min) ?_
  intro left k hmore
  cases hl : BinaryLevel.ofKind? k with
  | none => exact .pure _
  | some level =>
      have hmin : min.rank ≤ level.rank := by simpa [BinaryLevel.admits, hl] using hmore
      refine .eat k fun t u htu hk => .bind (rightOperand_alike hmin) fun right => ?_
      exact makeBinary_alike htu (hk.trans (BinaryLevel.ofKind?_eq_some_iff.1 hl))

theorem binary_alike (min : BinaryLevel) :
    Alike P (Production.binary min).height true true (binary P.left P.callLeft min)
      (binary P.right P.callRight min) := by
  have hunary : Production.unary.height < (Production.binary min).height := by
    cases min <;> decide
  exact .bind (.call .unary hunary) fun first => binaryRounds_alike min first

theorem unary_alike :
    Alike P 5 true true (unary P.left P.callLeft) (unary P.right P.callRight) := by
  refine .look fun k => ?_
  split
  · next hk =>
    refine .eat k fun t u htu hkind => ?_
    have htext : u.text = t.text := congrArg Prod.snd (P.lexeme_eq htu).symm
    rw [htext]
    cases hop : UnaryOp.ofSymbol? t.text with
    | none =>
        subst hkind
        exact .noOperator htu fun ht => unaryOp_of_spelled ht hk hop
    | some op =>
        exact .bind (.nested (.call .unary (Production.height_lt _))) fun _ => .pure _
  · exact .call .callMember (by decide)

theorem callTail_alike (callee : Expr) (hh : 2 < h) :
    Alike P h b c (callTail P.callLeft callee) (callTail P.callRight callee) := by
  refine .bind (.call .arguments hh) fun _ => .rounds rfl ?_ ?_ ?_
  · intro callee
    exact (P.advancesLeft _).bind fun _ => .pure _
  · intro callee
    exact (P.advancesRight _).bind fun _ => .pure _
  · intro callee
    exact .bind (.call .arguments hh) fun _ => .pure _

theorem callMember_alike :
    Alike P 4 true true (callMember P.left P.callLeft) (callMember P.right P.callRight) := by
  refine .look fun k => ?_
  split
  · exact .bind (.keyword _) fun _ => callTail_alike _ (by decide)
  · refine .bind (.call .member (by decide)) fun callee => .look fun k => ?_
    split
    · exact callTail_alike _ (by decide)
    · exact .pure _

theorem memberStep_alike (object : Expr) (hh : 1 < h) :
    Alike P h b c (memberStep P.left P.callLeft object)
      (memberStep P.right P.callRight object) := by
  refine .look fun k => ?_
  split
  · exact .bind (.delimiter _) fun _ => .bind .identifier fun _ => .pure _
  · exact .bind (.delimiter _) fun _ => .bind (.call .assignment hh) fun _ =>
      .bind (.delimiter _) fun _ => .pure _

theorem advances_memberStep {call : Production.Calls} (hcall : ∀ p, Advances true (call p))
    (object : Expr) : Advances true (memberStep g call object) := by
  refine .kind_bind fun k => ?_
  split
  · exact (Advances.delimiter _).bind fun _ => Advances.identifier.bind fun _ => .pure _
  · exact (Advances.delimiter _).bind fun _ => (hcall _).bind fun _ =>
      (Advances.delimiter _).bind fun _ => .pure _

theorem memberRounds_alike (object : Expr) (hh : 1 < h) :
    Alike P h b false (whileKind startsAccess (memberStep P.left P.callLeft) object)
      (whileKind startsAccess (memberStep P.right P.callRight) object) :=
  .rounds rfl (fun object => advances_memberStep P.advancesLeft object)
    (fun object => advances_memberStep P.advancesRight object)
    fun object => memberStep_alike object hh

theorem member_alike :
    Alike P 3 true true (member P.left P.callLeft) (member P.right P.callRight) :=
  .bind (.call .primary (by decide)) fun object => memberRounds_alike object (by decide)

theorem arguments_alike :
    Alike P 2 true true (arguments P.left P.callLeft) (arguments P.right P.callRight) := by
  refine .bind (.delimiter _) fun _ => .look fun k => ?_
  split
  · exact .bind (.pure _) fun _ => .bind (.delimiter _) fun _ => .pure _
  · exact .bind (.commaSeparated (P.advancesLeft _) (P.advancesRight _)
      fun _ _ => .call .assignment (by decide)) fun _ => .bind (.delimiter _) fun _ => .pure _

theorem primary_alike :
    Alike P 2 true true (primary P.left P.callLeft) (primary P.right P.callRight) := by
  refine .literal fun k => ?_
  split
  · exact condition_alike (by decide)
  · exact .bind .identifier fun _ => .pure _
  · exact .bind (.keyword _) fun _ => .pure _
  · exact .nested (.call .new (by decide))
  · exact .noExpression

theorem new_alike : Alike P 4 true true (new P.left P.callLeft) (new P.right P.callRight) :=
  .bind (.keyword _) fun _ => .bind (.call .member (by decide)) fun _ =>
    .bind (.call .arguments (by decide)) fun _ => .pure _

/-! ## The grammar -/

/-- **Each production is built alike in two parses.** -/
theorem body_alike : ∀ p, Alike P p.height true true (body P.left P.callLeft p)
    (body P.right P.callRight p)
  | .statement => statement_alike
  | .block => block_alike
  | .variableStatement => variableStatement_alike
  | .declarations => declarations_alike
  | .declaration => declaration_alike
  | .ifStatement => ifStatement_alike
  | .whileStatement => whileStatement_alike
  | .doWhileStatement => doWhileStatement_alike
  | .forStatement => forStatement_alike
  | .functionDeclaration => functionDeclaration_alike
  | .returnStatement => returnStatement_alike
  | .classDeclaration => classDeclaration_alike
  | .expressionStatement => expressionStatement_alike
  | .assignment => assignment_alike
  | .binary min => binary_alike min
  | .unary => unary_alike
  | .callMember => callMember_alike
  | .member => member_alike
  | .arguments => arguments_alike
  | .primary => primary_alike
  | .new => new_alike

end Grammar

def TwoRuns.ofCalls (g : Setting) (call call' : Production.Calls)
    (hcall : ∀ p, Advances true (call p)) (hcall' : ∀ p, Advances true (call' p)) : TwoRuns where
  left := g
  right := g
  callLeft := call
  callRight := call'
  Meets := Eq
  lexeme_eq := congrArg Token.lexeme
  advancesLeft := hcall
  advancesRight := hcall'

/-- **Productions make progress.** A production that succeeds has consumed at least one token, and
its level of nesting is the one that it started from. -/
theorem Grammar.run_advances (calls : Nat) (p : Production) : Advances true (run g calls p) := by
  induction calls generalizing p with
  | zero => exact .of_fails fun s a s' => throw_eq_ok.1
  | succ calls ih =>
      exact (body_alike (P := .ofCalls g (run g calls) (run g calls) ih ih) p).advances fun t => ⟨t, rfl⟩

end LetterLang

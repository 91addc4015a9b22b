import LetterLang.Proofs.Steering

/-!
# Productions find the wanted token

Each production is built from steps that `Parse.Guides` knows, so it goes the same way with the
wanted token in place of the one that does not fit, or it takes the token for itself. Two tables say
for which tokens: `Production.opening` is what a production calls for at its start, and
`Production.MayKeep` lists the tokens that would make it go on where it ends without them. An
expression goes on with an operator and a list of declarations with a comma, but what follows an
expression is never an operator, and what follows the declarations is a semicolon.

- `Grammar.run_guides`: every production finds the token, by induction on its calls.
- `Program.found_of_stuck`: a parse that fails for want of a token gets past such a token.
-/

namespace LetterLang

open Parse

/-- The kind of token that a production calls for where none stands that fits. -/
def Production.opening : Production → TokenKind
  | .block => .delimiter .openBrace
  | .variableStatement | .declarations => .keyword .letWord
  | .ifStatement => .keyword .ifWord
  | .whileStatement => .keyword .whileWord
  | .doWhileStatement => .keyword .doWord
  | .forStatement => .keyword .forWord
  | .functionDeclaration => .keyword .defWord
  | .classDeclaration => .keyword .classWord
  | .returnStatement => .keyword .returnWord
  | .arguments => .delimiter .openParen
  | .new => .keyword .newWord
  | .statement | .declaration | .expressionStatement | .assignment | .binary _ | .unary
  | .callMember | .member | .primary => .identifier

theorem Production.isCalledFor_opening (p : Production) : p.opening.isCalledFor = true := by
  cases p <;> rfl

/-- The kinds of wanted tokens that a production may keep from those who call it: it takes them for
a part of its own. -/
def Production.MayKeep : Production → TokenKind → Prop
  | .binary _, k => k.isCalledFor = false
  | .assignment, k => k = .simpleAssign ∨ k.isCalledFor = false
  | .declaration, k | .declarations, k => k ≠ .delimiter .semicolon
  | _, _ => False

def Grammar.Guided (R : Repair) (calls : Nat) : Prop :=
  ∀ p : Production, Guides R (R.Wants p.opening) (p.MayKeep R.wanted.kind) true
    (run R.left calls p) (run R.right calls p)

variable {R : Repair} {calls : Nat} {α : Type}

/-- An expression leaves delimiters to those who call it. -/
theorem Production.ne_delimiter {k : TokenKind} (h : Production.assignment.MayKeep k)
    (d : Delimiter) : k ≠ .delimiter d := by
  rintro rfl
  rcases h with h | h
  · cases h
  · cases h

theorem Production.mayKeep_of_isAssignment {k : TokenKind} (h : k.isAssignment = true) :
    Production.assignment.MayKeep k := by
  cases k with
  | simpleAssign => exact .inl rfl
  | complexAssign => exact .inr rfl
  | _ => cases h

/-- No place calls for an operator. -/
theorem BinaryLevel.isCalledFor_eq_false {min : BinaryLevel} {k : TokenKind}
    (h : min.admits k = true) : k.isCalledFor = false := by
  cases k with
  | delimiter | keyword | identifier | simpleAssign => cases h
  | _ => rfl

namespace Grammar

/-! ## Statements -/

theorem statementOf_tracks (h : Guided R calls) (k : TokenKind) :
    Tracks R (k = R.next → R.Wants .identifier) False true
      (statementOf R.left (run R.left calls) k) (statementOf R.right (run R.right calls) k) := by
  unfold statementOf
  split
  · exact (Guides.closing _ Statement.empty).toTracks.own
  · exact ((h .block).map Statement.block).toTracks.own
  · exact (h .variableStatement).toTracks.own
  · exact (h .ifStatement).toTracks.own
  · exact (h .whileStatement).toTracks.own
  · exact (h .doWhileStatement).toTracks.own
  · exact (h .forStatement).toTracks.own
  · exact (h .functionDeclaration).toTracks.own
  · exact (h .classDeclaration).toTracks.own
  · exact (h .returnStatement).toTracks.own
  · exact (h .expressionStatement).toTracks.weaken (fun hw _ => hw) id

theorem statement_guides (h : Guided R calls) :
    Guides R (R.Wants .identifier) False true (statement R.left (run R.left calls))
      (statement R.right (run R.right calls)) := by
  refine (Guides.look (statementOf_tracks h) (h .expressionStatement).ends fun hw => ?_).nested
  rw [hw.1]
  exact (h .expressionStatement).takes rfl hw

theorem statementsUntil_guides (h : Guided R calls) (stop : TokenKind)
    (hstop : stop ≠ .identifier) :
    Guides R (R.Wants .identifier) (R.wanted.kind ≠ stop) false
      (statementsUntil (run R.left calls) stop) (statementsUntil (run R.right calls) stop) := by
  have hround : ∀ items : List Statement, Guides R (R.Wants .identifier) False true
      (run R.left calls .statement >>= fun a => pure (a :: items))
      (run R.right calls .statement >>= fun a => pure (a :: items)) :=
    fun items => (h .statement).map (· :: items)
  have hadvances : ∀ items : List Statement, Advances true
      (run R.right calls .statement >>= fun a => pure (a :: items)) :=
    fun items => (run_advances calls .statement).bind fun _ => .pure _
  have hend : (decide (TokenKind.endOfInput ≠ stop) && decide (TokenKind.endOfInput ≠ .endOfInput)) =
      false := by simp
  have hloop : Guides R (R.Wants .identifier) (R.wanted.kind ≠ stop) false
      (whileKind (fun k => k ≠ stop && k ≠ .endOfInput) (fun items => kind >>= fun _ =>
        run R.left calls .statement >>= fun a => pure (a :: items)) [])
      (whileKind (fun k => k ≠ stop && k ≠ .endOfInput) (fun items => kind >>= fun _ =>
        run R.right calls .statement >>= fun a => pure (a :: items)) []) := by
    refine .loop (o := False) hend (.of_advances fun items => (hround items).moves.advances)
      (.of_advances hadvances) ?_ False.elim False.elim ?_ ?_ []
    · exact fun items k _ => (hround items).toTracks.weaken (fun hw _ => hw) id
    · intro hw
      refine ⟨?_, fun items => (hround items).takes rfl hw⟩
      rw [hw.1]
      simp [hstop.symm]
    · intro hk _
      exact .inl (of_decide_eq_true (Bool.and_eq_true_iff.1 hk).1)
  exact hloop.map List.reverse

theorem block_guides (h : Guided R calls) :
    Guides R (R.Wants (.delimiter .openBrace)) False true (block R.left (run R.left calls))
      (block R.right (run R.right calls)) :=
  (Guides.delimiter _).seq fun _ =>
    (statementsUntil_guides h (.delimiter .closeBrace) nofun).upTo fun body => .closing _ body

theorem variableStatement_guides (h : Guided R calls) :
    Guides R (R.Wants (.keyword .letWord)) False true
      (variableStatement R.left (run R.left calls))
      (variableStatement R.right (run R.right calls)) :=
  (h .declarations).bind (fun list => Guides.closing _ (Statement.variable list))
    (fun hk hw => hk hw.1) nofun

theorem declarations_guides (h : Guided R calls) :
    Guides R (R.Wants (.keyword .letWord)) (R.wanted.kind ≠ .delimiter .semicolon) true
      (declarations R.left (run R.left calls)) (declarations R.right (run R.right calls)) :=
  (Guides.keyword _).seq fun _ => (h .declaration).commaSeparated (run_advances calls _)

theorem declaration_guides (h : Guided R calls) :
    Guides R (R.Wants .identifier) (R.wanted.kind ≠ .delimiter .semicolon) true
      (declaration R.left (run R.left calls)) (declaration R.right (run R.right calls)) := by
  refine Guides.identifier.seq (w := R.Wants .simpleAssign) (b := false) fun name => ?_
  have hvalue : Guides R (R.Wants .simpleAssign) (R.wanted.kind ≠ .delimiter .semicolon) true
      (discard (eat R.left .simpleAssign) >>= fun _ => run R.left calls .assignment >>= fun e =>
        pure (⟨name, some e⟩ : Declaration))
      (discard (eat R.right .simpleAssign) >>= fun _ => run R.right calls .assignment >>= fun e =>
        pure (⟨name, some e⟩ : Declaration)) :=
    (Guides.discard_eat rfl).seq fun _ => ((h .assignment).map _).weaken fun hk =>
      Production.ne_delimiter hk .semicolon
  refine Guides.optional (C := fun k => k ≠ .delimiter .semicolon ∧ k ≠ .delimiter .comma)
    (a := ⟨name, none⟩) ?_ ?_ hvalue.ends ?_ fun hk _ => .inl hk.1
  · intro k hk
    split
    · exact ⟨rfl, rfl⟩
    · exact ⟨rfl, rfl⟩
    · next hsemi hcomma => exact absurd ⟨hsemi, hcomma⟩ hk
  · rintro k ⟨hsemi, hcomma⟩
    split
    · exact absurd rfl hsemi
    · exact absurd rfl hcomma
    · exact hvalue.toTracks.weaken (fun hw _ => hw) id
  · intro hw
    rw [hw.1]
    exact hvalue.takes rfl hw

theorem assignment_upTo (h : Guided R calls) {d : Delimiter} {o : Prop} {f f' : Expr → Parse α}
    (hf : ∀ e, Guides R (R.Wants (.delimiter d)) o true (f e) (f' e)) :
    Guides R (R.Wants .identifier) o true (run R.left calls .assignment >>= f)
      (run R.right calls .assignment >>= f') :=
  (h .assignment).bind hf (fun hk hw => Production.ne_delimiter hk d hw.1) nofun

theorem condition_guides (h : Guided R calls) :
    Guides R (R.Wants (.delimiter .openParen)) False true (condition R.left (run R.left calls))
      (condition R.right (run R.right calls)) :=
  (Guides.delimiter _).seq fun _ => assignment_upTo h fun e => .closing _ e

theorem ifStatement_guides (h : Guided R calls) :
    Guides R (R.Wants (.keyword .ifWord)) False true (ifStatement R.left (run R.left calls))
      (ifStatement R.right (run R.right calls)) :=
  (Guides.keyword _).seq fun _ => (condition_guides h).seq fun test =>
    (h .statement).seq fun consequent => .token nofun <|
      (Guides.keyword _).seq fun _ => (h .statement).map (Statement.ifElse test consequent)

theorem whileStatement_guides (h : Guided R calls) :
    Guides R (R.Wants (.keyword .whileWord)) False true
      (whileStatement R.left (run R.left calls)) (whileStatement R.right (run R.right calls)) :=
  (Guides.keyword _).seq fun _ => (condition_guides h).seq fun test =>
    (h .statement).map (Statement.whileLoop test)

theorem doWhileStatement_guides (h : Guided R calls) :
    Guides R (R.Wants (.keyword .doWord)) False true
      (doWhileStatement R.left (run R.left calls))
      (doWhileStatement R.right (run R.right calls)) :=
  (Guides.keyword _).seq fun _ => (h .statement).seq fun body => (Guides.keyword _).seq fun _ =>
    (condition_guides h).seq fun test => Guides.closing _ (Statement.doWhile body test)

theorem expressionUnless_guides (h : Guided R calls) (stop : Delimiter) :
    Guides R (R.Wants .identifier) (R.wanted.kind ≠ .delimiter stop) false
      (expressionUnless (run R.left calls) stop) (expressionUnless (run R.right calls) stop) :=
  ((h .assignment).map some).orStop (fun hw => hw.1 ▸ nofun) fun hk => Production.ne_delimiter hk stop

theorem forInit_guides (h : Guided R calls) :
    Guides R (R.Wants .identifier) (R.wanted.kind ≠ .delimiter .semicolon) false
      (forInit (run R.left calls)) (forInit (run R.right calls)) := by
  have hexpression : Guides R (R.Wants .identifier) (R.wanted.kind ≠ .delimiter .semicolon) true
      (run R.left calls .assignment >>= fun e => pure (some (ForInit.expression e)))
      (run R.right calls .assignment >>= fun e => pure (some (ForInit.expression e))) :=
    ((h .assignment).map _).weaken fun hk => Production.ne_delimiter hk .semicolon
  refine Guides.optional (C := (· ≠ .delimiter .semicolon)) (a := none) ?_ ?_ hexpression.ends ?_
    fun hk _ => .inl hk
  · intro k hk
    obtain rfl := Classical.not_not.1 hk
    exact ⟨rfl, rfl⟩
  · intro k hk
    split
    · exact absurd rfl hk
    · exact ((h .declarations).map fun list => some (ForInit.declarations list)).toTracks.own
    · exact hexpression.toTracks.weaken (fun hw _ => hw) id
  · intro hw
    rw [hw.1]
    exact hexpression.takes rfl hw

theorem forStatement_guides (h : Guided R calls) :
    Guides R (R.Wants (.keyword .forWord)) False true (forStatement R.left (run R.left calls))
      (forStatement R.right (run R.right calls)) :=
  (Guides.keyword _).seq fun _ => (Guides.delimiter _).seq fun _ =>
    (forInit_guides h).upTo fun init => (Guides.delimiter _).seq fun _ =>
      (expressionUnless_guides h _).upTo fun test => (Guides.delimiter _).seq fun _ =>
        (expressionUnless_guides h _).upTo fun update => (Guides.delimiter _).seq fun _ =>
          (h .statement).map (Statement.forLoop init test update)

theorem parameters_guides :
    Guides R (R.Wants .identifier) (R.wanted.kind ≠ .delimiter .closeParen) false
      (parameters R.left) (parameters R.right) :=
  (Guides.identifier.commaSeparated .identifier).orStop (fun hw => hw.1 ▸ nofun) False.elim

theorem functionDeclaration_guides (h : Guided R calls) :
    Guides R (R.Wants (.keyword .defWord)) False true
      (functionDeclaration R.left (run R.left calls))
      (functionDeclaration R.right (run R.right calls)) :=
  (Guides.keyword _).seq fun _ => Guides.identifier.seq fun name =>
    (Guides.delimiter _).seq fun _ => parameters_guides.upTo fun params =>
      (Guides.delimiter _).seq fun _ => (h .block).map (Statement.function name params)

theorem returnStatement_guides (h : Guided R calls) :
    Guides R (R.Wants (.keyword .returnWord)) False true
      (returnStatement R.left (run R.left calls)) (returnStatement R.right (run R.right calls)) :=
  (Guides.keyword _).seq fun _ => (expressionUnless_guides h _).upTo fun argument =>
    Guides.closing _ (Statement.return argument)

theorem superclass_guides :
    Guides R False False false (superclass R.left) (superclass R.right) :=
  .token nofun <| (Guides.keyword _).seq fun _ => Guides.identifier.map some

theorem classDeclaration_guides (h : Guided R calls) :
    Guides R (R.Wants (.keyword .classWord)) False true
      (classDeclaration R.left (run R.left calls))
      (classDeclaration R.right (run R.right calls)) :=
  (Guides.keyword _).seq fun _ => Guides.identifier.seq fun name =>
    superclass_guides.bind_optional (fun parent => (h .block).map (Statement.class name parent))
      False.elim nofun

theorem expressionStatement_guides (h : Guided R calls) :
    Guides R (R.Wants .identifier) False true (expressionStatement R.left (run R.left calls))
      (expressionStatement R.right (run R.right calls)) :=
  assignment_upTo h fun e => Guides.closing _ (Statement.expression e)

/-! ## Expressions -/

theorem unknownOperator_moves {t : Token} {expected : Expectation} (ht : ¬ t.lexeme.Spelled) :
    Moves R false (unknownOperator t expected : Parse α) :=
  .fail fun _ _ => .unknownOperator trivial ht

theorem assignmentInside_guides (h : Guided R calls) :
    Guides R (R.Wants .identifier) (Production.assignment.MayKeep R.wanted.kind) true
      (assignmentInside R.left (run R.left calls))
      (assignmentInside R.right (run R.right calls)) := by
  refine (h (.binary .loosest)).bind (w := False) (b := false) (fun left => ?_) (fun _ => id)
    fun _ => .inr
  refine Guides.optional (C := (TokenKind.isAssignment · = true)) (a := left) ?_ ?_ ?_ False.elim
    fun hk _ => .inl (Production.mayKeep_of_isAssignment hk)
  · intro k hk
    exact ⟨if_neg hk, if_neg hk⟩
  · intro k hk
    rw [if_pos hk, if_pos hk]
    refine (Tracks.eat (w := R.Wants .identifier) (b := true) ?_ ?_ ?_).own
    · rintro rfl
      cases hk
    · rintro t rfl
      cases hop : AssignOp.ofSymbol? t.text with
      | none => exact unknownOperator_moves fun ht => assignOp_of_spelled ht hk hop
      | some op =>
          cases left with
          | identifier name => exact ((h .assignment).map _).moves.weaken nofun
          | member object property computed => exact ((h .assignment).map _).moves.weaken nofun
          | _ => exact .fail fun _ _ => .invalidTarget trivial hk
    · rintro t ht rfl
      cases hop : AssignOp.ofSymbol? t.text with
      | none => exact absurd hop (assignOp_of_spelled ht hk)
      | some op =>
          cases left with
          | identifier name => exact ((h .assignment).map _).toSteers
          | member object property computed => exact ((h .assignment).map _).toSteers
          | _ => exact .fail rfl (.fail fun _ _ => .invalidTarget trivial hk)
  · exact fun s hnil => .ok hnil

theorem assignment_guides (h : Guided R calls) :
    Guides R (R.Wants .identifier) (Production.assignment.MayKeep R.wanted.kind) true
      (assignment R.left (run R.left calls)) (assignment R.right (run R.right calls)) :=
  (assignmentInside_guides h).nested

theorem rightOperand_guides (h : Guided R calls) (level : BinaryLevel) :
    Guides R (R.Wants .identifier) (R.wanted.kind.isCalledFor = false) true
      (rightOperand (run R.left calls) level) (rightOperand (run R.right calls) level) := by
  unfold rightOperand
  cases level.tighter? with
  | none => exact (h .unary).weaken False.elim
  | some next => exact h (.binary next)

theorem makeBinary_guides {level : BinaryLevel} {t : Token} {l r : Expr} {o : Prop}
    (ht : t.lexeme.Spelled) (hk : t.kind = level.kind) :
    Guides R False o false (makeBinary level t l r) (makeBinary level t l r) := by
  obtain ⟨e, he⟩ := makeBinary_of_spelled ht hk l r
  rw [he]
  exact .pure e

theorem makeBinary_moves {level : BinaryLevel} {t : Token} {l r : Expr} (hk : t.kind = level.kind) :
    Moves R false (makeBinary level t l r) := by
  by_cases ht : t.lexeme.Spelled
  · exact (makeBinary_guides (o := False) ht hk).moves
  · unfold makeBinary
    split
    · cases hop : LogicalOp.ofSymbol? t.text with
      | none => exact unknownOperator_moves ht
      | some op => exact .pure _
    · cases hop : BinaryOp.ofSymbol? t.text with
      | none => exact unknownOperator_moves ht
      | some op => exact .pure _

theorem binary_guides (h : Guided R calls) (min : BinaryLevel) :
    Guides R (R.Wants .identifier) (R.wanted.kind.isCalledFor = false) true
      (binary R.left (run R.left calls) min) (binary R.right (run R.right calls) min) := by
  refine (h .unary).seq (w := False) (b := false) fun left => .loop
    (o := R.wanted.kind.isCalledFor = false) rfl (binaryStep_progress (run_advances calls) min)
    (binaryStep_progress (run_advances calls) min) ?_ (fun _ => id) id False.elim ?_ left
  · intro left k hk
    cases hl : BinaryLevel.ofKind? k with
    | none => simp [BinaryLevel.admits, hl] at hk
    | some level =>
        have hkind := BinaryLevel.ofKind?_eq_some_iff.1 hl
        have hright := rightOperand_guides h level
        refine (Tracks.eat (w := R.Wants .identifier) (b := true) ?_ ?_ ?_).own
        · rintro rfl
          cases hl
        · intro t ht
          have hmoves := hright.moves.bind fun right => makeBinary_moves (l := left) (r := right)
            (ht.trans hkind)
          exact hmoves.weaken fun h => by cases h
        · intro t ht hk
          have hall := hright.bind (fun right => makeBinary_guides (l := left) (r := right) ht
            (hk.trans hkind)) (fun _ => id) fun _ => id
          exact hall.toSteers
  · exact fun hk _ => .inl (BinaryLevel.isCalledFor_eq_false hk)

theorem unary_guides (h : Guided R calls) :
    Guides R (R.Wants .identifier) False true (unary R.left (run R.left calls))
      (unary R.right (run R.right calls)) := by
  refine .look (fun k => ?_) (h .callMember).ends fun hw => ?_
  · split
    · next hk =>
      refine (Tracks.eat (w := R.Wants .identifier) (b := true) ?_ ?_ ?_).own
      · rintro rfl
        simp at hk
      · rintro t rfl
        cases hop : UnaryOp.ofSymbol? t.text with
        | none => exact unknownOperator_moves fun ht => unaryOp_of_spelled ht hk hop
        | some op => exact ((h .unary).nested.map _).moves.weaken nofun
      · rintro t ht rfl
        cases hop : UnaryOp.ofSymbol? t.text with
        | none => exact absurd hop (unaryOp_of_spelled ht hk)
        | some op => exact ((h .unary).nested.map _).toSteers
    · exact (h .callMember).toTracks.weaken (fun hw _ => hw) id
  · rw [hw.1]
    exact (h .callMember).takes rfl hw

theorem callTail_guides (h : Guided R calls) (callee : Expr) :
    Guides R (R.Wants (.delimiter .openParen)) False true (callTail (run R.left calls) callee)
      (callTail (run R.right calls) callee) := by
  have hround : ∀ callee : Expr, Guides R (R.Wants (.delimiter .openParen)) False true
      (run R.left calls .arguments >>= fun list => pure (Expr.call callee list))
      (run R.right calls .arguments >>= fun list => pure (Expr.call callee list)) :=
    fun callee => (h .arguments).map (Expr.call callee)
  have hadvances : ∀ callee : Expr, Advances true
      (run R.right calls .arguments >>= fun list => pure (Expr.call callee list)) :=
    fun callee => (run_advances calls .arguments).bind fun _ => .pure _
  exact (h .arguments).seq fun list => .delimited hround hadvances (.call callee list)

theorem callMember_guides (h : Guided R calls) :
    Guides R (R.Wants .identifier) False true (callMember R.left (run R.left calls))
      (callMember R.right (run R.right calls)) := by
  have hmember : Guides R (R.Wants .identifier) False true
      (run R.left calls .member >>= fun callee => kind >>= fun k =>
        if k = .delimiter .openParen then callTail (run R.left calls) callee else pure callee)
      (run R.right calls .member >>= fun callee => kind >>= fun k =>
        if k = .delimiter .openParen then callTail (run R.right calls) callee else pure callee) :=
    (h .member).seq fun callee => .token nofun (callTail_guides h callee)
  refine .look (fun k => ?_) hmember.ends fun hw => ?_
  · split
    · next hk =>
      subst hk
      exact ((Guides.keyword _).seq fun _ => callTail_guides h .super).toTracks.own
    · exact hmember.toTracks.weaken (fun hw _ => hw) id
  · rw [hw.1]
    exact hmember.takes rfl hw

theorem member_guides (h : Guided R calls) :
    Guides R (R.Wants .identifier) False true (member R.left (run R.left calls))
      (member R.right (run R.right calls)) := by
  have hp : ∀ g : Setting, Progress startsAccess (memberStep g (run g calls)) := fun g =>
    .of_advances fun object => advances_memberStep (run_advances calls) object
  refine (h .primary).seq fun object => .rounds rfl (hp R.left) (hp R.right)
    (fun object k hk => ?_) object
  split
  · next hdot =>
    subst hdot
    exact (Guides.delimiter _).seq fun _ =>
      Guides.identifier.map fun name => Expr.member object (.identifier name) false
  · next hdot =>
    obtain rfl : k = .delimiter .openBracket := by simpa [startsAccess, hdot] using hk
    exact (Guides.delimiter _).seq fun _ => assignment_upTo h fun property =>
      Guides.closing _ (Expr.member object property true)

/-- The list of arguments as a step of its own. -/
theorem arguments_eq (g : Setting) (call : Production.Calls) :
    arguments g call = delimiter g .openParen >>= fun _ =>
      (kind >>= fun k => if k = .delimiter .closeParen then pure []
        else commaSeparated g (call .assignment)) >>= fun list =>
      delimiter g .closeParen >>= fun _ => pure list := by
  unfold arguments
  refine bind_congr fun _ => ?_
  rw [bind_assoc]
  refine bind_congr fun k => ?_
  split
  · rfl
  · rfl

theorem arguments_guides (h : Guided R calls) :
    Guides R (R.Wants (.delimiter .openParen)) False true (arguments R.left (run R.left calls))
      (arguments R.right (run R.right calls)) := by
  have hlist : Guides R (R.Wants .identifier) (Production.assignment.MayKeep R.wanted.kind) true
      (commaSeparated R.left (run R.left calls .assignment))
      (commaSeparated R.right (run R.right calls .assignment)) :=
    (h .assignment).commaSeparated (run_advances calls _)
  rw [arguments_eq, arguments_eq]
  exact (Guides.delimiter _).seq fun _ =>
    (hlist.orStop (fun hw => hw.1 ▸ nofun) fun hk => Production.ne_delimiter hk .closeParen).upTo
      fun list => .closing _ list

theorem primary_guides (h : Guided R calls) :
    Guides R (R.Wants .identifier) False true (primary R.left (run R.left calls))
      (primary R.right (run R.right calls)) := by
  refine .literal (fun k => ?_) ?_ ?_
  · split
    · exact (condition_guides h).toTracks.own
    · exact (Guides.identifier.map Expr.identifier).toTracks.own
    · exact ((Guides.keyword _).map fun _ => Expr.this).toTracks.own
    · exact (h .new).nested.toTracks.own
    · next hk _ _ =>
      exact Tracks.expressionExpected.weaken (fun hw hnext => ⟨hw, hnext ▸ hk⟩) id
  · intro s hnil
    show Short R.right (expressionExpected R.right s)
    rw [expressionExpected_of_nil hnil]
    exact .unexpectedEnd
  · intro hw
    rw [hw.1]
    exact ⟨rfl, (Guides.identifier.map Expr.identifier).takes rfl hw⟩

theorem new_guides (h : Guided R calls) :
    Guides R (R.Wants (.keyword .newWord)) False true (new R.left (run R.left calls))
      (new R.right (run R.right calls)) :=
  (Guides.keyword _).seq fun _ => (h .member).seq fun callee =>
    (h .arguments).map (Expr.new callee)

/-! ## The grammar -/

theorem body_guides (h : Guided R calls) : ∀ p : Production,
    Guides R (R.Wants p.opening) (p.MayKeep R.wanted.kind) true
      (body R.left (run R.left calls) p) (body R.right (run R.right calls) p)
  | .statement => statement_guides h
  | .block => block_guides h
  | .variableStatement => variableStatement_guides h
  | .declarations => declarations_guides h
  | .declaration => declaration_guides h
  | .ifStatement => ifStatement_guides h
  | .whileStatement => whileStatement_guides h
  | .doWhileStatement => doWhileStatement_guides h
  | .forStatement => forStatement_guides h
  | .functionDeclaration => functionDeclaration_guides h
  | .returnStatement => returnStatement_guides h
  | .classDeclaration => classDeclaration_guides h
  | .expressionStatement => expressionStatement_guides h
  | .assignment => assignment_guides h
  | .binary min => binary_guides h min
  | .unary => unary_guides h
  | .callMember => callMember_guides h
  | .member => member_guides h
  | .arguments => arguments_guides h
  | .primary => primary_guides h
  | .new => new_guides h

/-- **Every production finds the wanted token.** -/
theorem run_guides (calls : Nat) : Guided R calls := by
  induction calls with
  | zero =>
      intro p
      have hstrays : ∀ {o : Prop} (s : ParseState), Strays R o (run R.left 0 p s) :=
        fun s => .error nofun
      refine ⟨⟨⟨run_accounts 0 p, fun _ s _ => (hstrays (o := True) s).not_stuck, ?_⟩, ?_⟩, ?_, ?_⟩
      · exact fun t us s s' _ => .inr (.inr (hstrays s))
      · exact fun s s' _ => .inr (.inr (hstrays s))
      · exact fun s _ => .outOfCalls
      · intro _ hw s _
        exact ⟨hw.1 ▸ p.isCalledFor_opening, .outOfCalls⟩
  | succ calls ih => exact body_guides ih

end Grammar

theorem Program.parse_guides :
    Guides R (R.Wants .identifier) (R.wanted.kind ≠ .endOfInput) false (Program.parse R.left)
      (Program.parse R.right) := by
  have hcalls : Grammar.Guided R (callBudget R.left.limit) := Grammar.run_guides _
  unfold Program.parse
  rw [← R.limit_eq]
  exact (Grammar.statementsUntil_guides hcalls .endOfInput nofun).map Program.mk

/-- **A parse that is stuck for want of a token** is not stuck with that token in place. -/
theorem Program.found_of_stuck {us : List Token} {s s' : ParseState} (hs : s.Beside R us s')
    (h : Stuck R (Program.parse R.left s)) : Found R (Program.parse R.right s') := by
  rcases Program.parse_guides.toSteers.follows hs with ⟨p, s₁, s₁', vs, hok, -⟩ | hfound | hstrays
  · rw [hok] at h
    cases h
  · exact hfound
  · exact absurd h hstrays.not_stuck

end LetterLang

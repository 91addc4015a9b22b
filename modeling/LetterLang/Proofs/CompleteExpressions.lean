import LetterLang.Proofs.Derivation
import LetterLang.Proofs.Reading

/-!
# Completeness of the parser on expressions

Whatever derives an expression is parsed to that expression. The grammar is ambiguous as it stands;
the parser takes as much as it can, and one lexeme decides whether more can be taken. So each phrase
is accepted before a rest that cannot continue it, and each derivation puts its parts before such
rests.

- Phrases that are read by a loop (`binary`, `callMember`, `member`) are stated with the rest of
  their loop: if the rounds that are left lead from the phrase to a result, so does the production.
- A run needs calls: `callsPerLevel` for each level of nesting, and within a level as many as its
  chain of productions is long.
-/

namespace LetterLang

open Parse

/-- The kinds that would continue an operand: an access to a member or a call. -/
def TokenKind.continuesOperand (kind : TokenKind) : Bool :=
  Grammar.startsAccess kind || kind = .delimiter .openParen

def TokenKind.continuesExpression (kind : TokenKind) : Bool :=
  kind.continuesOperand || (BinaryLevel.ofKind? kind).isSome || kind.isAssignment

theorem TokenKind.continuesExpression_eq_false {kind : TokenKind} :
    kind.continuesExpression = false ↔ kind.continuesOperand = false ∧
      BinaryLevel.ofKind? kind = none ∧ kind.isAssignment = false := by
  simp [continuesExpression, and_assoc]

theorem TokenKind.continuesOperand_eq_false {kind : TokenKind} :
    kind.continuesOperand = false ↔
      Grammar.startsAccess kind = false ∧ kind ≠ .delimiter .openParen := by
  simp [continuesOperand]

theorem BinaryLevel.continuesOperand_kind (level : BinaryLevel) :
    level.kind.continuesOperand = false := by
  cases level <;> rfl

theorem AssignOp.continuesOperand_lexeme (op : AssignOp) :
    op.lexeme.1.continuesOperand = false := by
  cases op <;> rfl

theorem AssignOp.ofKind?_lexeme (op : AssignOp) : BinaryLevel.ofKind? op.lexeme.1 = none := by
  cases op <;> rfl

theorem BinaryLevel.rank_le (level : BinaryLevel) : level.rank ≤ 5 := by
  cases level <;> decide

theorem BinaryLevel.admits_kind {min level : BinaryLevel} :
    min.admits level.kind = decide (min.rank ≤ level.rank) := by
  simp [admits]

namespace Grammar

variable {g : Setting} {n c : Nat} {i j k : List Lexeme} {α : Type}

/-- A run with enough calls does what the body of the grammar does. -/
theorem accepts_run {p : Production} {a : p.Result} {bound : Nat} (hpos : 0 < bound)
    (h : ∀ c, bound ≤ c + 1 → Accepts g (body g (run g c) p) n i a k) (hc : bound ≤ c) :
    Accepts g (run g c p) n i a k := by
  cases c with
  | zero => omega
  | succ c => exact h c hc

/-! ## Expressions in the place of calls -/

/-- The production of a phrase accepts it, given enough calls and a rest that does not continue
it. -/
def Completes (g : Setting) : Phrase → Nat → List Lexeme → Expr → List Lexeme → Prop
  | .assignment, n, i, e, k =>
    (Lexeme.firstKind k).continuesExpression = false →
      ∀ c, callsPerLevel * n ≤ c + 1 → Accepts g (assignment g (run g c)) n i e k
  | .binary top, n, i, e, k =>
    (Lexeme.firstKind k).continuesOperand = false →
      (∀ level, BinaryLevel.ofKind? (Lexeme.firstKind k) = some level → level.rank ≤ top.rank) →
      ∀ min c rest b, BinaryLevel.rank min ≤ top.rank →
        callsPerLevel * n + 10 ≤ c + 1 + min.rank →
        Loops g n min.admits (binaryStep g (run g c)) k e rest b →
        Accepts g (binary g (run g c) min) n i b rest
  | .unary, n, i, e, k =>
    (Lexeme.firstKind k).continuesOperand = false →
      ∀ c, callsPerLevel * n + 4 ≤ c + 1 → Accepts g (unary g (run g c)) n i e k
  | .callMember, n, i, e, k =>
    startsAccess (Lexeme.firstKind k) = false →
      ∀ c rest b, callsPerLevel * n + 3 ≤ c + 1 →
        Loops g n (· = .delimiter .openParen)
          (fun callee => return .call callee (← run g c .arguments)) k e rest b →
        Accepts g (callMember g (run g c)) n i b rest
  | .member, n, i, e, k =>
    ∀ c rest b, callsPerLevel * n + 2 ≤ c + 1 →
      Loops g n startsAccess (memberStep g (run g c)) k e rest b →
      Accepts g (member g (run g c)) n i b rest
  | .primary, n, i, e, k =>
    ∀ c, callsPerLevel * n + 1 ≤ c + 1 → Accepts g (primary g (run g c)) n i e k

theorem Completes.run_assignment {e : Expr} (h : Completes g .assignment n i e k) (hn : 0 < n)
    (hk : (Lexeme.firstKind k).continuesExpression = false) (hc : callsPerLevel * n ≤ c) :
    Accepts g (run g c .assignment) n i e k :=
  accepts_run (Nat.mul_pos (by decide) hn) (h hk) hc

theorem Completes.run_binary {e : Expr} {level : BinaryLevel}
    (h : Completes g (.binary level) n i e k)
    (hk : (Lexeme.firstKind k).continuesOperand = false)
    (hlt : ∀ level', BinaryLevel.ofKind? (Lexeme.firstKind k) = some level' →
      level'.rank < level.rank)
    (hc : callsPerLevel * n + 10 ≤ c + level.rank) :
    Accepts g (run g c (.binary level)) n i e k := by
  have hr := level.rank_le
  refine accepts_run (by omega : 0 < callsPerLevel * n + 10 - level.rank) ?_ (by omega)
  intro c hc
  refine h hk (fun level' h' => Nat.le_of_lt (hlt level' h')) level c k e (Nat.le_refl _)
    (by omega) (.stop ?_)
  cases hl : BinaryLevel.ofKind? (Lexeme.firstKind k) with
  | none => simp [BinaryLevel.admits, hl]
  | some level' =>
      have := hlt level' hl
      simp only [BinaryLevel.admits, hl, Option.any_some, decide_eq_false_iff_not]
      omega

theorem Completes.run_unary {e : Expr} (h : Completes g .unary n i e k)
    (hk : (Lexeme.firstKind k).continuesOperand = false) (hc : callsPerLevel * n + 4 ≤ c) :
    Accepts g (run g c .unary) n i e k :=
  accepts_run (by omega) (h hk) hc

theorem Completes.run_member {e : Expr} (h : Completes g .member n i e k)
    (hk : startsAccess (Lexeme.firstKind k) = false) (hc : callsPerLevel * n + 2 ≤ c) :
    Accepts g (run g c .member) n i e k :=
  accepts_run (by omega) (fun c hc => h c k e hc (.stop hk)) hc

theorem eat_bind_accepts (hg : g.Complete) {t : Lexeme} {f : Token → Parse α} {b : α}
    (hf : ∀ u, u.lexeme = t → Accepts g (f u) n j b k) :
    Accepts g (eat g t.1 >>= f) n (t :: j) b k := by
  intro s hs
  obtain ⟨u, s₁, hu, h₁, hs₁⟩ := eat_accepts hg hs
  obtain ⟨s₂, h₂, hs₂⟩ := hf u hu s₁ hs₁
  exact ⟨s₂, bind_eq_ok.2 ⟨u, s₁, h₁, h₂⟩, hs₂⟩

/-! ## Items with commas -/

/-- Items that are accepted before a comma and before the rest are accepted with commas between
them. -/
theorem commaSeparated_accepts (hg : g.Complete) {item : Parse α}
    {R : List Lexeme → α → List Lexeme → Prop}
    {F : TokenKind → Prop} {as : List α}
    (hitem : ∀ {i a k}, R i a k → F (Lexeme.firstKind k) → Accepts g item n i a k)
    (hlt : ∀ {i a k}, R i a k → k.length < i.length)
    (hcomma : F (.delimiter .comma)) (hk : F (Lexeme.firstKind k))
    (hend : Lexeme.firstKind k ≠ .delimiter .comma) (h : CommaSeparated R i as k) :
    Accepts g (commaSeparated g item) n i as k := by
  -- After a comma, the rounds that are left put the items one by one onto those already read.
  have rounds : ∀ {j as k}, CommaSeparated R j as k → F (Lexeme.firstKind k) →
      Lexeme.firstKind k ≠ .delimiter .comma → ∀ acc,
      Loops g n (· = .delimiter .comma)
        (fun items => do delimiter g .comma; return (← item) :: items)
        (Lexeme.delimiter .comma :: j) acc k (as.reverse ++ acc) := by
    intro j as k h hk hend
    induction h with
    | @one j a k h =>
        intro acc
        refine .round (by simp) ?_ (Nat.lt_succ_of_lt (hlt h)) (.stop (by simpa using hend))
        exact (delimiter_accepts hg _).bind ((hitem h hk).bind .pure)
    | @more j a j' as k h _ ih =>
        intro acc
        rw [List.reverse_cons, List.append_assoc]
        refine .round (by simp) ?_ (Nat.lt_succ_of_lt (hlt h)) (ih hk hend (a :: acc))
        exact (delimiter_accepts hg _).bind ((hitem h hcomma).bind .pure)
  cases h with
  | @one _ a _ h =>
      have hloop : Loops g n (· = .delimiter .comma)
          (fun items => do delimiter g .comma; return (← item) :: items) k [a] k [a] :=
        .stop (by simpa using hend)
      exact (hitem h hk).bind (hloop.accepts.bind .pure)
  | @more _ a j' as _ h h' =>
      have hloop := (rounds h' hk hend [a]).accepts
      have hrev : a :: as = (as.reverse ++ [a]).reverse := by simp
      rw [hrev]
      exact (hitem h hcomma).bind (hloop.bind .pure)

/-! ## Expressions -/

theorem assignment_plain {e : Expr} (h : Completes g (.binary .loosest) n i e k) :
    Completes g .assignment (n + 1) i e k := by
  intro hk c hc
  obtain ⟨hop, hlevel, hassign⟩ := TokenKind.continuesExpression_eq_false.1 hk
  rw [callsPerLevel] at hc
  have hleft : Accepts g (run g c (.binary .loosest)) n i e k :=
    h.run_binary hop (by simp [hlevel]) (by rw [callsPerLevel]; omega)
  refine (hleft.bind (.kind_bind ?_)).nested
  rw [if_neg (by simp [hassign])]
  exact .pure

theorem run_target {op : AssignOp} {target : Expr}
    (h : Completes g (.binary .loosest) n i target (op.lexeme :: j))
    (hc : callsPerLevel * (n + 1) ≤ c + 1) :
    Accepts g (run g c (.binary .loosest)) n i target (op.lexeme :: j) := by
  rw [callsPerLevel] at hc
  refine h.run_binary op.continuesOperand_lexeme ?_ (by rw [callsPerLevel]; omega)
  intro level hlevel
  rw [Lexeme.firstKind_cons, op.ofKind?_lexeme] at hlevel
  cases hlevel

theorem assignOp_of_lexeme {op : AssignOp} {u : Token} (hu : u.lexeme = op.lexeme) :
    AssignOp.ofSymbol? u.text = some op := by
  rw [show u.text = op.symbol from congrArg Prod.snd hu]
  exact op.ofSymbol?_symbol

/-- An assignment of a value to a target, as the tree has it: to a name or to a member. -/
inductive Assigns (op : AssignOp) (v : Expr) : Expr → Expr → Prop
  | identifier {name} : Assigns op v (.identifier name) (.assign op name v)
  | member {o p computed} :
      Assigns op v (.member o p computed) (.assignMember op o p computed v)

theorem assignment_target (hg : g.Complete) {op : AssignOp} {target v e : Expr}
    (he : Assigns op v target e) (h : Completes g (.binary .loosest) n i target (op.lexeme :: j))
    (hn : 0 < n) (h' : Completes g .assignment n j v k) :
    Completes g .assignment (n + 1) i e k := by
  intro hk c hc
  refine ((run_target h hc).bind (.kind_bind ?_)).nested
  rw [Lexeme.firstKind_cons, if_pos op.isAssignment_lexeme]
  refine eat_bind_accepts hg fun u hu => ?_
  simp only [assignOp_of_lexeme hu]
  rw [callsPerLevel] at hc
  have hvalue : Accepts g (run g c .assignment) n j v k :=
    h'.run_assignment hn hk (by rw [callsPerLevel]; omega)
  cases he with
  | identifier => exact hvalue.bind .pure
  | member => exact hvalue.bind .pure

theorem binary_operand {level : BinaryLevel} {e : Expr}
    (h : Completes g level.operand n i e k) : Completes g (.binary level) n i e k := by
  intro hk hlevel min c rest b hmin hc hloop
  have hr := level.rank_le
  rw [BinaryLevel.operand] at h
  cases ht : level.tighter? with
  | none =>
      rw [ht] at h
      exact (h.run_unary hk (by omega)).bind hloop.accepts
  | some next =>
      rw [ht] at h
      have hn := BinaryLevel.rank_of_tighter? ht
      refine h hk (fun level' h' => ?_) min c rest b (by omega) hc hloop
      have := hlevel level' h'
      omega

theorem rightOperand_accepts {level : BinaryLevel} {r : Expr}
    (h : Completes g level.operand n j r k) (hk : (Lexeme.firstKind k).continuesOperand = false)
    (hlevel : ∀ level', BinaryLevel.ofKind? (Lexeme.firstKind k) = some level' →
      level'.rank ≤ level.rank)
    (hc : callsPerLevel * n + 10 ≤ c + 1 + level.rank) :
    Accepts g (rightOperand (run g c) level) n j r k := by
  have hr := level.rank_le
  rw [BinaryLevel.operand] at h
  unfold rightOperand
  cases ht : level.tighter? with
  | none =>
      rw [ht] at h
      exact h.run_unary hk (by omega)
  | some next =>
      rw [ht] at h
      have hn := BinaryLevel.rank_of_tighter? ht
      refine h.run_binary hk (fun level' h' => ?_) (by omega)
      have := hlevel level' h'
      omega

/-- One round of the loop: an operator of the level of what has been read so far. -/
theorem binary_round (hg : g.Complete) {level : BinaryLevel} {op : Lexeme} {l r e : Expr}
    (hop : op.1 = level.kind)
    (hmake : ∀ u : Token, u.lexeme = op → makeBinary level u l r = pure e)
    (h : Completes g (.binary level) n i l (op :: j)) (h' : Completes g level.operand n j r k)
    (hlt : k.length < j.length) : Completes g (.binary level) n i e k := by
  intro hk hlevel min c rest b hmin hc hloop
  refine h ?_ ?_ min c rest b hmin hc (.round ?_ ?_ (Nat.lt_succ_of_lt hlt) hloop)
  · rw [Lexeme.firstKind_cons, hop]
    exact level.continuesOperand_kind
  · intro level' h'
    rw [Lexeme.firstKind_cons, hop, BinaryLevel.ofKind?_kind] at h'
    cases h'
    exact Nat.le_refl _
  · rw [Lexeme.firstKind_cons, hop, BinaryLevel.admits_kind]
    exact decide_eq_true hmin
  · refine .kind_bind ?_
    have hkind : BinaryLevel.ofKind? (Lexeme.firstKind (op :: j)) = some level := by
      rw [Lexeme.firstKind_cons, hop, BinaryLevel.ofKind?_kind]
    simp only [hkind]
    refine eat_bind_accepts hg fun u hu => ?_
    refine (rightOperand_accepts h' hk hlevel (by omega)).bind ?_
    rw [hmake u hu]
    exact .pure

theorem binary_logical (hg : g.Complete) {op : LogicalOp} {l r : Expr}
    (h : Completes g (.binary op.level) n i l (op.lexeme :: j))
    (h' : Completes g op.level.operand n j r k) (hlt : k.length < j.length) :
    Completes g (.binary op.level) n i (.logical op l r) k := by
  refine binary_round hg rfl (fun u hu => ?_) h h' hlt
  have hop : LogicalOp.ofSymbol? u.text = some op := by
    rw [show u.text = op.symbol from congrArg Prod.snd hu]
    exact op.ofSymbol?_symbol
  have hlog : op.level.isLogical = true := by cases op <;> rfl
  simp only [makeBinary, hlog, if_true, hop]

theorem binary_binary (hg : g.Complete) {op : BinaryOp} {l r : Expr}
    (h : Completes g (.binary op.level) n i l (op.lexeme :: j))
    (h' : Completes g op.level.operand n j r k) (hlt : k.length < j.length) :
    Completes g (.binary op.level) n i (.binary op l r) k := by
  refine binary_round hg rfl (fun u hu => ?_) h h' hlt
  have hop : BinaryOp.ofSymbol? u.text = some op := by
    rw [show u.text = op.symbol from congrArg Prod.snd hu]
    exact op.ofSymbol?_symbol
  have hlog : op.level.isLogical = false := by cases op <;> rfl
  simp only [makeBinary, hlog, Bool.false_eq_true, if_false, hop]

theorem unary_unary (hg : g.Complete) {op : UnaryOp} {e : Expr} (h : Completes g .unary n i e k) :
    Completes g .unary (n + 1) (op.lexeme :: i) (.unary op e) k := by
  intro hk c hc
  refine .kind_bind ?_
  rw [if_pos (by cases op <;> simp [UnaryOp.lexeme])]
  refine eat_bind_accepts hg fun u hu => ?_
  have hop : UnaryOp.ofSymbol? u.text = some op := by
    rw [show u.text = op.symbol by cases op <;> exact congrArg Prod.snd hu]
    exact op.ofSymbol?_symbol
  simp only [hop]
  rw [callsPerLevel] at hc
  exact ((h.run_unary hk (by rw [callsPerLevel]; omega)).nested).bind .pure

theorem unary_leftHandSide {e : Expr} (h : Completes g .callMember n i e k)
    (hstart : Phrase.starts .callMember (Lexeme.firstKind i) = true) :
    Completes g .unary n i e k := by
  intro hk c hc
  obtain ⟨haccess, hparen⟩ := TokenKind.continuesOperand_eq_false.1 hk
  refine .kind_bind ?_
  rw [if_neg]
  · refine accepts_run (by omega) (fun c hc => ?_) (by omega : callsPerLevel * n + 3 ≤ c)
    exact h haccess c k e hc (.stop (by simpa using hparen))
  · rintro (heq | heq) <;> rw [heq] at hstart <;> cases hstart

def CompletesArguments (g : Setting) (n : Nat) (i : List Lexeme) (es : List Expr)
    (k : List Lexeme) : Prop :=
  ∀ c, callsPerLevel * n + 1 ≤ c + 1 → Accepts g (arguments g (run g c)) n i es k

theorem CompletesArguments.run {es : List Expr} (h : CompletesArguments g n i es k)
    (hc : callsPerLevel * n + 1 ≤ c) : Accepts g (run g c .arguments) n i es k :=
  accepts_run (by omega) h hc

theorem callMember_uncalled {e : Expr} (h : Completes g .member n i e k)
    (hstart : Phrase.starts .member (Lexeme.firstKind i) = true) :
    Completes g .callMember n i e k := by
  intro hk c rest b hc hloop
  have hsuper : ¬ Lexeme.firstKind i = .keyword .superWord := by
    intro heq
    rw [heq] at hstart
    cases hstart
  refine .kind_bind ?_
  rw [if_neg hsuper]
  refine (h.run_member hk (by omega)).bind (.kind_bind ?_)
  cases hloop with
  | stop hend =>
      rw [if_neg (by simpa using hend)]
      exact .pure
  | round hmore hstep hlt hrest =>
      rw [if_pos (by simpa using hmore)]
      intro s hs
      obtain ⟨s₁, h₁, hs₁⟩ := hstep s hs
      obtain ⟨as, s₂, h₂, h₃⟩ := bind_eq_ok.1 h₁
      obtain ⟨rfl, rfl⟩ := pure_eq_ok.1 h₃
      obtain ⟨s₃, h₄, hs₃⟩ := hrest.accepts s₂ hs₁
      exact ⟨s₃, bind_eq_ok.2 ⟨as, s₂, h₂, h₄⟩, hs₃⟩

theorem callMember_superCall (hg : g.Complete) {as : List Expr}
    (h : CompletesArguments g n i as k) :
    Completes g .callMember n (Lexeme.keyword .superWord :: i) (.call .super as) k := by
  intro hk c rest b hc hloop
  refine .kind_bind ?_
  rw [if_pos (by rfl)]
  exact (keyword_accepts hg _).bind ((h.run (by omega)).bind hloop.accepts)

theorem callMember_call {f : Expr} {as : List Expr} (h : Completes g .callMember n i f j)
    (hstart : Lexeme.firstKind j = .delimiter .openParen) (h' : CompletesArguments g n j as k)
    (hlt : k.length < j.length) : Completes g .callMember n i (.call f as) k := by
  intro hk c rest b hc hloop
  refine h (by rw [hstart]; rfl) c rest b hc (.round (by simpa using hstart) ?_ hlt hloop)
  exact (h'.run (by omega)).bind .pure

theorem member_primary {e : Expr} (h : Completes g .primary n i e k) :
    Completes g .member n i e k := by
  intro c rest b hc hloop
  have he : Accepts g (run g c .primary) n i e k := accepts_run (Nat.succ_pos _) h (by omega)
  exact he.bind hloop.accepts

theorem member_dot (hg : g.Complete) {o : Expr} {name : String}
    (h : Completes g .member n i o
      (Lexeme.delimiter .dot :: Lexeme.identifier name :: k)) :
    Completes g .member n i (.member o (.identifier name) false) k := by
  intro c rest b hc hloop
  refine h c rest b hc (.round rfl ?_ (by simp only [List.length_cons]; omega) hloop)
  refine .kind_bind ?_
  rw [if_pos (by rfl)]
  exact (delimiter_accepts hg _).bind ((identifier_accepts hg _).bind .pure)

theorem member_index (hg : g.Complete) {o p : Expr}
    (h : Completes g .member n i o (Lexeme.delimiter .openBracket :: j)) (hn : 0 < n)
    (h' : Completes g .assignment n j p (Lexeme.delimiter .closeBracket :: k))
    (hlt : k.length + 1 < j.length) : Completes g .member n i (.member o p true) k := by
  intro c rest b hc hloop
  refine h c rest b hc (.round rfl ?_ (by simp only [List.length_cons]; omega) hloop)
  refine .kind_bind ?_
  rw [if_neg (by simp)]
  have hp := h'.run_assignment hn rfl (by omega : callsPerLevel * n ≤ c)
  exact (delimiter_accepts hg _).bind (hp.bind ((delimiter_accepts hg _).bind .pure))

theorem literal?_of_derivesLiteral {t : Lexeme} {u : Token} {e : Expr} (h : DerivesLiteral t e)
    (hu : u.lexeme = t) : literal? u = some e := by
  have hkind : u.kind = t.1 := congrArg Prod.fst hu
  have htext : u.text = t.2 := congrArg Prod.snd hu
  cases h with
  | number hv hf => simp [literal?, hkind, htext, hv, hf]
  | string => simp [literal?, hkind, htext, unquoted]
  | trueWord | falseWord | nullWord => simp [literal?, hkind]

theorem isLiteral_of_derivesLiteral {t : Lexeme} {e : Expr} (h : DerivesLiteral t e) :
    t.1.isLiteral = true := by
  cases h <;> rfl

theorem primary_literal (hg : g.Complete) {t : Lexeme} {e : Expr} (h : DerivesLiteral t e) :
    Completes g .primary n (t :: k) e k := by
  intro c hc
  refine .kind_bind ?_
  rw [Lexeme.firstKind_cons, if_pos (isLiteral_of_derivesLiteral h)]
  intro s hs
  obtain ⟨u, s₁, hu, h₁, hs₁⟩ := eat_accepts hg hs
  obtain ⟨rest, hp, hk, -⟩ := eat_eq_ok.1 h₁
  have hlook : s.lookahead g = u := by rw [ParseState.lookahead, hp]; rfl
  refine ⟨s₁, bind_eq_ok.2 ⟨u, s, by rw [← hlook]; rfl, ?_⟩, hs₁⟩
  simp only [literal?_of_derivesLiteral h hu]
  rw [hk]
  exact bind_eq_ok.2 ⟨(), s₁, discard_eq_ok.2 ⟨u, h₁⟩, rfl⟩

theorem primary_name (hg : g.Complete) {name : String} :
    Completes g .primary n (Lexeme.identifier name :: k) (.identifier name) k := by
  intro c hc
  refine .kind_bind ?_
  exact (identifier_accepts hg _).bind .pure

theorem primary_this (hg : g.Complete) :
    Completes g .primary n (Lexeme.keyword .thisWord :: k) .this k := by
  intro c hc
  refine .kind_bind ?_
  exact (keyword_accepts hg _).bind .pure

theorem condition_accepts (hg : g.Complete) {e : Expr} (hn : 0 < n)
    (h : Completes g .assignment n i e (Lexeme.delimiter .closeParen :: k))
    (hc : callsPerLevel * n ≤ c) :
    Accepts g (condition g (run g c)) n (Lexeme.delimiter .openParen :: i) e k := by
  have he := h.run_assignment hn rfl hc
  exact (delimiter_accepts hg _).bind (he.bind ((delimiter_accepts hg _).bind .pure))

theorem primary_parenthesized (hg : g.Complete) {e : Expr} (hn : 0 < n)
    (h : Completes g .assignment n i e (Lexeme.delimiter .closeParen :: k)) :
    Completes g .primary n (Lexeme.delimiter .openParen :: i) e k := by
  intro c hc
  refine .kind_bind ?_
  exact condition_accepts hg hn h (by omega)

theorem primary_new (hg : g.Complete) {f : Expr} {as : List Expr}
    (h : Completes g .member n i f j) (hstart : Lexeme.firstKind j = .delimiter .openParen)
    (h' : CompletesArguments g n j as k) :
    Completes g .primary (n + 1) (Lexeme.keyword .newWord :: i) (.new f as) k := by
  intro c hc
  rw [callsPerLevel] at hc
  refine .kind_bind ?_
  refine Accepts.nested (accepts_run (by omega : 0 < callsPerLevel * n + 3) (fun c hc => ?_)
    (by rw [callsPerLevel]; omega))
  have hcallee := h.run_member (by rw [hstart]; rfl) (by omega : callsPerLevel * n + 2 ≤ c)
  exact (keyword_accepts hg _).bind (hcallee.bind ((h'.run (by omega)).bind .pure))

theorem arguments_none (hg : g.Complete) : CompletesArguments g n
    (Lexeme.delimiter .openParen :: Lexeme.delimiter .closeParen :: k) [] k := by
  intro c hc
  refine (delimiter_accepts hg _).bind (.kind_bind ?_)
  rw [if_pos (by rfl)]
  exact Accepts.pure.bind ((delimiter_accepts hg _).bind .pure)

theorem arguments_some (hg : g.Complete) {es : List Expr} (hn : 0 < n)
    (hstart : Phrase.starts .assignment (Lexeme.firstKind i) = true)
    (h : CommaSeparated (fun i e k => Completes g .assignment n i e k ∧ k.length < i.length) i es
      (Lexeme.delimiter .closeParen :: k)) :
    CompletesArguments g n (Lexeme.delimiter .openParen :: i) es k := by
  intro c hc
  refine (delimiter_accepts hg _).bind (.kind_bind ?_)
  have hclose : ¬ Lexeme.firstKind i = .delimiter .closeParen := by
    intro heq
    rw [heq] at hstart
    cases hstart
  rw [if_neg hclose]
  have hes : Accepts g (commaSeparated g (run g c .assignment)) n i es
      (Lexeme.delimiter .closeParen :: k) :=
    commaSeparated_accepts hg (F := fun kind => kind.continuesExpression = false)
      (fun h hk => h.1.run_assignment hn hk (by omega)) (fun h => h.2) rfl rfl (by simp) h
  exact hes.bind ((delimiter_accepts hg _).bind .pure)

end Grammar

open Grammar

variable {g : Setting}

theorem DerivesExpr.levels_pos {n : Nat} {i k : List Lexeme} {e : Expr}
    (h : DerivesExpr .assignment n i e k) : 0 < n := by
  cases h <;> exact Nat.succ_pos _

theorem DerivesArgumentList.levels_pos {n : Nat} {i k : List Lexeme} {es : List Expr} :
    DerivesArgumentList n i es k → 0 < n := by
  intro h
  cases h with
  | one h => exact h.levels_pos
  | more h _ => exact h.levels_pos

theorem DerivesArgumentList.starts {n : Nat} {i k : List Lexeme} {es : List Expr} :
    DerivesArgumentList n i es k →
      Phrase.starts .assignment (Lexeme.firstKind i) = true := by
  intro h
  cases h with
  | one h => exact h.starts
  | more h _ => exact h.starts

mutual

/-- **Completeness of expressions.** The parser accepts every phrase that is derived. -/
theorem DerivesExpr.completes (hg : g.Complete) {phrase : Phrase} {n : Nat} {i k : List Lexeme}
    {e : Expr} : DerivesExpr phrase n i e k → Completes g phrase n i e k
  | .plain h => assignment_plain (h.completes hg)
  | .assign h h' => assignment_target hg .identifier (h.completes hg) h'.levels_pos (h'.completes hg)
  | .assignMember h h' =>
      assignment_target hg .member (h.completes hg) h'.levels_pos (h'.completes hg)
  | .operand h => binary_operand (h.completes hg)
  | .logical h h' => binary_logical hg (h.completes hg) (h'.completes hg) h'.length_lt
  | .binary h h' => binary_binary hg (h.completes hg) (h'.completes hg) h'.length_lt
  | .unary h => unary_unary hg (h.completes hg)
  | .leftHandSide h => unary_leftHandSide (h.completes hg) h.starts
  | .uncalled h => callMember_uncalled (h.completes hg) h.starts
  | .superCall h => callMember_superCall hg (h.completes hg)
  | .call h h' => callMember_call (h.completes hg) h'.starts (h'.completes hg) h'.length_lt
  | .primary h => member_primary (h.completes hg)
  | .dot h => member_dot hg (h.completes hg)
  | .index h h' =>
      member_index hg (h.completes hg) h'.levels_pos (h'.completes hg) h'.length_lt
  | .literal h => primary_literal hg h
  | .name => primary_name hg
  | .this => primary_this hg
  | .parenthesized h => primary_parenthesized hg h.levels_pos (h.completes hg)
  | .new h h' => primary_new hg (h.completes hg) h'.starts (h'.completes hg)

theorem DerivesArguments.completes (hg : g.Complete) {n : Nat} {i k : List Lexeme}
    {es : List Expr} : DerivesArguments n i es k → CompletesArguments g n i es k
  | .none => arguments_none hg
  | .some h => arguments_some hg h.levels_pos h.starts (h.completes hg)

theorem DerivesArgumentList.completes (hg : g.Complete) {n : Nat} {i k : List Lexeme}
    {es : List Expr} : DerivesArgumentList n i es k →
      CommaSeparated (fun i e k => Completes g .assignment n i e k ∧ k.length < i.length) i es k
  | .one h => .one ⟨h.completes hg, h.length_lt⟩
  | .more h h' => .more ⟨h.completes hg, h.length_lt⟩ (h'.completes hg)

end

theorem DerivesExpr.accepts (hg : g.Complete) {n c : Nat} {i k : List Lexeme} {e : Expr}
    (h : DerivesExpr .assignment n i e k)
    (hk : (Lexeme.firstKind k).continuesExpression = false) (hc : callsPerLevel * n ≤ c) :
    Accepts g (run g c .assignment) n i e k :=
  (h.completes hg).run_assignment h.levels_pos hk hc

end LetterLang

import LetterLang.Proofs.Budget

/-!
# Climbing and the chain of levels

The production `binary min` reads operators of all levels from `min` on in one loop. The grammar
that it stands for has one production for each level: an operand of the next tighter level, and
then operators of exactly this level, grouped to the left. `Chain` is that grammar, and
`Grammar.produce_binary_eq_chain` says that both do the same from every state: the same tree and
the same state after it, or the same error.

The argument is about loops. A loop over the kinds of two groups is the loop over the first group
and then the loop over the second, if a round of the second group never ends before a kind of the
first (`Parse.whileKind_or`). A round of operators of one level ends behind a right operand, and
right operands take all tighter operators.
-/

namespace LetterLang

open Parse

variable {g : Setting} {s s' : ParseState} {α : Type}

/-! ## Loops over two groups of kinds -/

namespace Parse

variable {more more₁ more₂ : TokenKind → Bool} {step step' : α → Parse α} {a b : α}

theorem whileKind_stops (hend : more .endOfInput = false) (hp : Progress more step)
    (h : whileKind more step a s = .ok b s') : more s'.kind = false := by
  induction hn : s.pending.length using Nat.strongRecOn generalizing a s with
  | ind n ih =>
      rw [whileKind_eq hend hp] at h
      split at h
      · next hm =>
        obtain ⟨a₁, s₁, h₁, h⟩ := bind_eq_ok.1 h
        have hlt := hp a s a₁ s₁ hm h₁
        exact ih _ (hn ▸ hlt) h rfl
      · next hm =>
        cases h
        simpa using hm

theorem whileKind_congr (hend : more .endOfInput = false) (hp : Progress more step)
    (hp' : Progress more step')
    (hstep : ∀ a s, more s.kind = true → step a s = step' a s) :
    whileKind more step a s = whileKind more step' a s := by
  induction hn : s.pending.length using Nat.strongRecOn generalizing a s with
  | ind n ih =>
      rw [whileKind_eq hend hp, whileKind_eq hend hp']
      by_cases hm : more s.kind = true
      · rw [if_pos hm, if_pos hm]
        have heq := hstep a s hm
        cases hround : step a s with
        | error e s₁ => rw [bind_of_error hround, bind_of_error (heq ▸ hround)]
        | ok a₁ s₁ =>
            rw [bind_of_ok hround, bind_of_ok (heq ▸ hround)]
            have hlt := hp a s a₁ s₁ hm hround
            exact ih _ (hn ▸ hlt) rfl
      · rw [if_neg hm, if_neg hm]

theorem whileKind_of_not (hend : more .endOfInput = false) (hp : Progress more step)
    (h : more s.kind = false) : whileKind more step a s = .ok a s := by
  rw [whileKind_eq hend hp, h]
  rfl

/-- **A loop over two groups of kinds is two loops**, if a round of the second group never ends
before a kind of the first. -/
theorem whileKind_or (hmore : ∀ k, more k = (more₁ k || more₂ k))
    (hend : more .endOfInput = false) (hp : Progress more step)
    (hround : ∀ a s b s', more₂ s.kind = true → step a s = .ok b s' → more₁ s'.kind = false) :
    whileKind more step a s = (whileKind more₁ step a >>= whileKind more₂ step) s := by
  obtain ⟨hend₁, hend₂⟩ : more₁ .endOfInput = false ∧ more₂ .endOfInput = false := by
    rw [hmore, Bool.or_eq_false_iff] at hend
    exact hend
  have hp₁ : Progress more₁ step := fun a s b s' hm => hp a s b s' (by rw [hmore, hm]; rfl)
  have hp₂ : Progress more₂ step := fun a s b s' hm => hp a s b s' (by simp [hmore, hm])
  induction hn : s.pending.length using Nat.strongRecOn generalizing a s with
  | ind n ih =>
      rw [whileKind_eq hend hp]
      by_cases hm₁ : more₁ s.kind = true
      · have hloop : whileKind more₁ step a s = (step a >>= whileKind more₁ step) s := by
          rw [whileKind_eq hend₁ hp₁, if_pos hm₁]
        rw [if_pos (by rw [hmore, hm₁]; rfl)]
        cases hstep : step a s with
        | error e s₁ =>
            rw [bind_of_error hstep] at hloop ⊢
            rw [bind_of_error hloop]
        | ok a₁ s₁ =>
            rw [bind_of_ok hstep] at hloop ⊢
            have hlt := hp₁ a s a₁ s₁ hm₁ hstep
            rw [ih _ (hn ▸ hlt) rfl]
            exact bind_eq_of_eq hloop.symm
      · have hm₁ : more₁ s.kind = false := by simpa using hm₁
        have hfirst : whileKind more₁ step a s = .ok a s := whileKind_of_not hend₁ hp₁ hm₁
        rw [bind_of_ok hfirst, whileKind_eq hend₂ hp₂, hmore, hm₁, Bool.false_or]
        by_cases hm₂ : more₂ s.kind = true
        · rw [if_pos hm₂, if_pos hm₂]
          cases hstep : step a s with
          | error e s₁ => rw [bind_of_error hstep, bind_of_error hstep]
          | ok a₁ s₁ =>
              have hnot := hround a s a₁ s₁ hm₂ hstep
              have hfirst' : whileKind more₁ step a₁ s₁ = .ok a₁ s₁ :=
                whileKind_of_not hend₁ hp₁ hnot
              have hlt := hp₂ a s a₁ s₁ hm₂ hstep
              rw [bind_of_ok hstep, bind_of_ok hstep, ih _ (hn ▸ hlt) rfl, bind_of_ok hfirst']
        · rw [if_neg hm₂, if_neg hm₂]

end Parse

/-! ## The chain -/

namespace Grammar

/-- One operator of a level and its right operand, put to the expression `left`. -/
def levelStep (g : Setting) (level : BinaryLevel) (operand : Parse Expr) (left : Expr) :
    Parse Expr := do
  let t ← eat g level.kind
  let right ← operand
  makeBinary level t left right

/-- Operands with operators of exactly one level between them, grouped to the left. -/
def leftFold (g : Setting) (level : BinaryLevel) (operand : Parse Expr) : Parse Expr := do
  let left ← operand
  whileKind (· = level.kind) (levelStep g level operand) left

namespace Chain

variable (g : Setting) (unary : Parse Expr)

def multiplicative : Parse Expr :=
  leftFold g .multiplicative unary

def additive : Parse Expr :=
  leftFold g .additive (multiplicative g unary)

def relational : Parse Expr :=
  leftFold g .relational (additive g unary)

def equality : Parse Expr :=
  leftFold g .equality (relational g unary)

def logicalAnd : Parse Expr :=
  leftFold g .logicalAnd (equality g unary)

def logicalOr : Parse Expr :=
  leftFold g .logicalOr (logicalAnd g unary)

/-- The chain from a level on, down to unary expressions. -/
def startingAt : BinaryLevel → Parse Expr
  | .logicalOr => logicalOr g unary
  | .logicalAnd => logicalAnd g unary
  | .equality => equality g unary
  | .relational => relational g unary
  | .additive => additive g unary
  | .multiplicative => multiplicative g unary

end Chain

/-! ## Climbing is the chain -/

variable {level next : BinaryLevel}

theorem admits_endOfInput (min : BinaryLevel) : min.admits .endOfInput = false :=
  rfl

/-- A level and the tighter ones are the level itself and those from the next one on. -/
theorem admits_of_tighter? (h : level.tighter? = some next) (k : TokenKind) :
    level.admits k = (next.admits k || k = level.kind) := by
  cases hk : BinaryLevel.ofKind? k with
  | none =>
      have hne : k ≠ level.kind := by
        rintro rfl
        rw [BinaryLevel.ofKind?_kind] at hk
        cases hk
      simp [BinaryLevel.admits, hk, hne]
  | some l =>
      obtain rfl := BinaryLevel.ofKind?_eq_some_iff.1 hk
      cases level <;> cases h <;> cases l <;> rfl

/-- A production of binary operators leaves no operator that it could take. -/
theorem admits_of_produce_binary {min : BinaryLevel} {e : Expr}
    (h : produce g (.binary min) s = .ok e s') : min.admits s'.kind = false := by
  rw [produce_eq] at h
  obtain ⟨left, s₁, -, h⟩ := bind_eq_ok.1 h
  exact whileKind_stops (admits_endOfInput min) (binaryStep_progress (advances_produce g) min) h

theorem advances_levelStep {operand : Parse Expr} (h : Advances true operand) (left : Expr) :
    Advances true (levelStep g level operand left) :=
  (Advances.eat _).bind fun _ => h.bind fun _ => advances_makeBinary

theorem binaryStep_of_kind {call : Production.Calls} {left : Expr} (h : s.kind = level.kind) :
    binaryStep g call left s = levelStep g level (rightOperand call level) left s := by
  rw [binaryStep, kind_bind, h, BinaryLevel.ofKind?_kind]
  rfl

theorem whileKind_binaryStep {call : Production.Calls} {left : Expr} (level : BinaryLevel)
    (hcall : ∀ p, Advances true (call p)) :
    whileKind (· = level.kind) (binaryStep g call) left s =
      whileKind (· = level.kind) (levelStep g level (rightOperand call level)) left s := by
  have hend : decide (TokenKind.endOfInput = level.kind) = false := by cases level <;> rfl
  have hrounds : Progress (· = level.kind) (binaryStep g call) := by
    intro left s e s' hk
    have hk : s.kind = level.kind := of_decide_eq_true hk
    refine binaryStep_progress hcall level left s e s' ?_
    simp [BinaryLevel.admits, hk]
  refine whileKind_congr hend hrounds (.of_advances ?_) ?_
  · exact advances_levelStep (advances_rightOperand hcall level)
  · intro left s hk
    exact binaryStep_of_kind (of_decide_eq_true hk)

theorem state_of_makeBinary {t : Token} {l r e : Expr}
    (h : makeBinary level t l r s = .ok e s') : s' = s := by
  unfold makeBinary at h
  by_cases hl : level.isLogical = true
  · rw [if_pos hl] at h
    cases hop : LogicalOp.ofSymbol? t.text with
    | none => exact (fail_eq_ok.1 (hop ▸ h)).elim
    | some op => exact (pure_eq_ok.1 (hop ▸ h)).2.symm
  · rw [if_neg hl] at h
    cases hop : BinaryOp.ofSymbol? t.text with
    | none => exact (fail_eq_ok.1 (hop ▸ h)).elim
    | some op => exact (pure_eq_ok.1 (hop ▸ h)).2.symm

/-- A right operand of a level ends before no operator of the next level or a tighter one, and so
does a round. -/
theorem admits_of_binaryStep {left e : Expr} (h : level.tighter? = some next)
    (hk : s.kind = level.kind) (hstep : binaryStep g (produce g) left s = .ok e s') :
    next.admits s'.kind = false := by
  rw [binaryStep_of_kind hk] at hstep
  obtain ⟨t, s₁, -, hstep⟩ := bind_eq_ok.1 hstep
  obtain ⟨right, s₂, hright, hmake⟩ := bind_eq_ok.1 hstep
  rw [rightOperand, h] at hright
  rw [state_of_makeBinary hmake]
  exact admits_of_produce_binary hright

theorem produce_binary_multiplicative :
    produce g (.binary .multiplicative) = leftFold g .multiplicative (produce g .unary) := by
  funext s
  rw [produce_eq]
  have hmore : BinaryLevel.multiplicative.admits = fun k => decide (k = .multiplicative) := by
    funext k
    cases k <;> rfl
  show (produce g .unary >>= whileKind BinaryLevel.multiplicative.admits _) s = _
  cases hleft : produce g .unary s with
  | error e s₁ => exact (bind_of_error hleft).trans (bind_of_error hleft).symm
  | ok left s₁ =>
      rw [bind_of_ok hleft, leftFold, bind_of_ok hleft, hmore]
      exact whileKind_binaryStep .multiplicative (advances_produce g)

theorem produce_binary_of_tighter? (h : level.tighter? = some next) :
    produce g (.binary level) = leftFold g level (produce g (.binary next)) := by
  funext s
  have hprogress := binaryStep_progress (g := g) (advances_produce g) level
  have hright : rightOperand (produce g) level = produce g (.binary next) := by
    rw [rightOperand, h]
  rw [produce_eq, leftFold]
  show (produce g .unary >>= whileKind level.admits (binaryStep g (produce g))) s = _
  cases hleft : produce g .unary s with
  | error e s₁ =>
      have hnext : produce g (.binary next) s = .error e s₁ := by
        rw [produce_eq]
        exact bind_of_error hleft
      rw [bind_of_error hleft, bind_of_error hnext]
  | ok left s₁ =>
      have hnext : produce g (.binary next) s =
          whileKind next.admits (binaryStep g (produce g)) left s₁ := by
        rw [produce_eq]
        exact bind_of_ok hleft
      rw [bind_of_ok hleft, whileKind_or (admits_of_tighter? h) (admits_endOfInput level) hprogress,
        bind_eq_of_eq hnext, ← hright]
      · cases hloop : whileKind next.admits (binaryStep g (produce g)) left s₁ with
        | error e s₂ => rw [bind_of_error hloop, bind_of_error hloop]
        | ok e s₂ =>
            rw [bind_of_ok hloop, bind_of_ok hloop]
            exact whileKind_binaryStep level (advances_produce g)
      · intro left s e s' hk
        exact admits_of_binaryStep h (of_decide_eq_true hk)

/-- **Climbing is the chain of levels.** From every state, reading operators of all levels from
`min` on in one loop has the outcome of the chain that starts at `min`: the same expression with
the same state after it, or the same error. -/
theorem produce_binary_eq_chain (g : Setting) (min : BinaryLevel) :
    produce g (.binary min) = Chain.startingAt g (produce g .unary) min := by
  have hmul : produce g (.binary .multiplicative) = Chain.multiplicative g (produce g .unary) :=
    produce_binary_multiplicative
  have hadd : produce g (.binary .additive) = Chain.additive g (produce g .unary) := by
    rw [produce_binary_of_tighter? rfl, hmul, Chain.additive]
  have hrel : produce g (.binary .relational) = Chain.relational g (produce g .unary) := by
    rw [produce_binary_of_tighter? rfl, hadd, Chain.relational]
  have heq : produce g (.binary .equality) = Chain.equality g (produce g .unary) := by
    rw [produce_binary_of_tighter? rfl, hrel, Chain.equality]
  have hand : produce g (.binary .logicalAnd) = Chain.logicalAnd g (produce g .unary) := by
    rw [produce_binary_of_tighter? rfl, heq, Chain.logicalAnd]
  have hor : produce g (.binary .logicalOr) = Chain.logicalOr g (produce g .unary) := by
    rw [produce_binary_of_tighter? rfl, hand, Chain.logicalOr]
  cases min with
  | logicalOr => exact hor
  | logicalAnd => exact hand
  | equality => exact heq
  | relational => exact hrel
  | additive => exact hadd
  | multiplicative => exact hmul

end Grammar

end LetterLang

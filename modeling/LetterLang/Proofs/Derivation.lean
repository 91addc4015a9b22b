import LetterLang.Proofs.Lexeme

/-!
# The grammar as derivations

The language is given by derivations over lists of lexemes, without a parser. A derivation
`DerivesExpr phrase n i e k` says that the front of `i`, up to the rest `k`, is a phrase of the
given form with the tree `e`, and that its parts nest at most `n` levels deep.

- Statements, expressions at the level of assignments, operands of unary operators and `new` are
  the four constructions that take a level: their rules go from `n` to `n + 1`. The body of a
  function or a class takes none.
- The rules are those of an ambiguous grammar read as it stands, left-recursive where operators
  group to the left. The rest `k` occurs in one side condition only: an `if` without `else` is not
  followed by `else`.
- `DerivesProgram` derives a whole list of lexemes.
-/

namespace LetterLang

open Lexeme (delimiter keyword identifier)

/-! ## Expressions -/

/-- The forms of expressions, from the loosest to the tightest. -/
inductive Phrase where
  | assignment
  | binary (level : BinaryLevel)
  | unary
  | callMember
  | member
  | primary
deriving DecidableEq, Repr

/-- The form of the right operands of a level, one step tighter than the level. -/
def BinaryLevel.operand (level : BinaryLevel) : Phrase :=
  match level.tighter? with
  | some next => .binary next
  | none => .unary

/-- A lexeme that is a literal, and its tree. A number has to be finite. -/
inductive DerivesLiteral : Lexeme → Expr → Prop
  | number {text : String} {v : Binary64} (hv : Binary64.ofText? text = some v)
      (hf : v.isFinite = true) : DerivesLiteral (.number, text) (.number v)
  | string {quote : Char} {body : List Char} :
      DerivesLiteral (.string, String.ofList (quote :: body ++ [quote]))
        (.string (String.ofList body))
  | trueWord : DerivesLiteral (keyword .trueWord) (.boolean true)
  | falseWord : DerivesLiteral (keyword .falseWord) (.boolean false)
  | nullWord : DerivesLiteral (keyword .nullWord) .null

mutual

/-- The front of a list of lexemes is a phrase with a tree, within a number of levels. -/
inductive DerivesExpr : Phrase → Nat → List Lexeme → Expr → List Lexeme → Prop
  | plain {n i e k} : DerivesExpr (.binary .loosest) n i e k → DerivesExpr .assignment (n + 1) i e k
  | assign {n i j k op name v} :
      DerivesExpr (.binary .loosest) n i (.identifier name) (AssignOp.lexeme op :: j) →
      DerivesExpr .assignment n j v k →
      DerivesExpr .assignment (n + 1) i (.assign op name v) k
  | assignMember {n i j k op o p computed v} :
      DerivesExpr (.binary .loosest) n i (.member o p computed) (AssignOp.lexeme op :: j) →
      DerivesExpr .assignment n j v k →
      DerivesExpr .assignment (n + 1) i (.assignMember op o p computed v) k
  | operand {level n i e k} : DerivesExpr level.operand n i e k →
      DerivesExpr (.binary level) n i e k
  | logical {op n i l j r k} :
      DerivesExpr (.binary op.level) n i l (op.lexeme :: j) →
      DerivesExpr op.level.operand n j r k →
      DerivesExpr (.binary op.level) n i (.logical op l r) k
  | binary {op n i l j r k} :
      DerivesExpr (.binary op.level) n i l (op.lexeme :: j) →
      DerivesExpr op.level.operand n j r k →
      DerivesExpr (.binary op.level) n i (.binary op l r) k
  | unary {op n i e k} : DerivesExpr .unary n i e k →
      DerivesExpr .unary (n + 1) (UnaryOp.lexeme op :: i) (.unary op e) k
  | leftHandSide {n i e k} : DerivesExpr .callMember n i e k → DerivesExpr .unary n i e k
  | uncalled {n i e k} : DerivesExpr .member n i e k → DerivesExpr .callMember n i e k
  | superCall {n i as k} : DerivesArguments n i as k →
      DerivesExpr .callMember n (keyword .superWord :: i) (.call .super as) k
  | call {n i f j as k} : DerivesExpr .callMember n i f j → DerivesArguments n j as k →
      DerivesExpr .callMember n i (.call f as) k
  | primary {n i e k} : DerivesExpr .primary n i e k → DerivesExpr .member n i e k
  | dot {n i o name k} :
      DerivesExpr .member n i o (delimiter .dot :: identifier name :: k) →
      DerivesExpr .member n i (.member o (.identifier name) false) k
  | index {n i o j p k} :
      DerivesExpr .member n i o (delimiter .openBracket :: j) →
      DerivesExpr .assignment n j p (delimiter .closeBracket :: k) →
      DerivesExpr .member n i (.member o p true) k
  | literal {t n e k} : DerivesLiteral t e → DerivesExpr .primary n (t :: k) e k
  | name {name n k} : DerivesExpr .primary n (identifier name :: k) (.identifier name) k
  | this {n k} : DerivesExpr .primary n (keyword .thisWord :: k) .this k
  | parenthesized {n i e k} : DerivesExpr .assignment n i e (delimiter .closeParen :: k) →
      DerivesExpr .primary n (delimiter .openParen :: i) e k
  | new {n i f j as k} : DerivesExpr .member n i f j → DerivesArguments n j as k →
      DerivesExpr .primary (n + 1) (keyword .newWord :: i) (.new f as) k

inductive DerivesArguments : Nat → List Lexeme → List Expr → List Lexeme → Prop
  | none {n k} : DerivesArguments n (delimiter .openParen :: delimiter .closeParen :: k) [] k
  | some {n i as k} : DerivesArgumentList n i as (delimiter .closeParen :: k) →
      DerivesArguments n (delimiter .openParen :: i) as k

inductive DerivesArgumentList : Nat → List Lexeme → List Expr → List Lexeme → Prop
  | one {n i e k} : DerivesExpr .assignment n i e k → DerivesArgumentList n i [e] k
  | more {n i e j es k} : DerivesExpr .assignment n i e (delimiter .comma :: j) →
      DerivesArgumentList n j es k → DerivesArgumentList n i (e :: es) k

end

/-! ## Parts of statements

Each part is a relation between a list of lexemes, a value and a rest, like the derivations of
expressions that it is made of. -/

/-- One or more items with commas between them, given what derives an item. -/
inductive CommaSeparated {α : Type} (item : List Lexeme → α → List Lexeme → Prop) :
    List Lexeme → List α → List Lexeme → Prop
  | one {i a k} : item i a k → CommaSeparated item i [a] k
  | more {i a j as k} : item i a (delimiter .comma :: j) → CommaSeparated item j as k →
      CommaSeparated item i (a :: as) k

inductive DerivesName : List Lexeme → String → List Lexeme → Prop
  | mk {name k} : DerivesName (identifier name :: k) name k

inductive DerivesDeclaration (n : Nat) : List Lexeme → Declaration → List Lexeme → Prop
  | bare {name k} : DerivesDeclaration n (identifier name :: k) ⟨name, none⟩ k
  | initialized {name i e k} : DerivesExpr .assignment n i e k →
      DerivesDeclaration n (identifier name :: AssignOp.assign.lexeme :: i) ⟨name, some e⟩ k

inductive DerivesDeclarations (n : Nat) : List Lexeme → List Declaration → List Lexeme → Prop
  | mk {i ds k} : CommaSeparated (DerivesDeclaration n) i ds k →
      DerivesDeclarations n (keyword .letWord :: i) ds k

inductive DerivesOption (n : Nat) : List Lexeme → Option Expr → List Lexeme → Prop
  | none {k} : DerivesOption n k none k
  | some {i e k} : DerivesExpr .assignment n i e k → DerivesOption n i (some e) k

inductive DerivesForInit (n : Nat) : List Lexeme → Option ForInit → List Lexeme → Prop
  | none {k} : DerivesForInit n k none k
  | declarations {i ds k} : DerivesDeclarations n i ds k →
      DerivesForInit n i (some (.declarations ds)) k
  | expression {i e k} : DerivesExpr .assignment n i e k →
      DerivesForInit n i (some (.expression e)) k

inductive DerivesParameters : List Lexeme → List String → List Lexeme → Prop
  | none {k} : DerivesParameters k [] k
  | some {i names k} : CommaSeparated DerivesName i names k → DerivesParameters i names k

inductive DerivesSuperclass : List Lexeme → Option String → List Lexeme → Prop
  | none {k} : DerivesSuperclass k none k
  | some {name k} :
      DerivesSuperclass (keyword .extendsWord :: identifier name :: k) (some name) k

/-! ## Statements -/

mutual

/-- The front of a list of lexemes is a statement, within a number of levels. -/
inductive DerivesStatement : Nat → List Lexeme → Statement → List Lexeme → Prop
  | empty {n k} : DerivesStatement (n + 1) (delimiter .semicolon :: k) .empty k
  | expression {n i e k} : DerivesExpr .assignment n i e (delimiter .semicolon :: k) →
      DerivesStatement (n + 1) i (.expression e) k
  | block {n i body k} : DerivesBlock n i body k → DerivesStatement (n + 1) i (.block body) k
  | variable {n i ds k} : DerivesDeclarations n i ds (delimiter .semicolon :: k) →
      DerivesStatement (n + 1) i (.variable ds) k
  | ifThen {n i test j s k} : DerivesExpr .assignment n i test (delimiter .closeParen :: j) →
      DerivesStatement n j s k → Lexeme.firstKind k ≠ .keyword .elseWord →
      DerivesStatement (n + 1) (keyword .ifWord :: delimiter .openParen :: i) (.ifThen test s) k
  | ifElse {n i test j s j' s' k} :
      DerivesExpr .assignment n i test (delimiter .closeParen :: j) →
      DerivesStatement n j s (keyword .elseWord :: j') → DerivesStatement n j' s' k →
      DerivesStatement (n + 1) (keyword .ifWord :: delimiter .openParen :: i)
        (.ifElse test s s') k
  | whileLoop {n i test j s k} : DerivesExpr .assignment n i test (delimiter .closeParen :: j) →
      DerivesStatement n j s k →
      DerivesStatement (n + 1) (keyword .whileWord :: delimiter .openParen :: i)
        (.whileLoop test s) k
  | doWhile {n i s j test k} :
      DerivesStatement n i s (keyword .whileWord :: delimiter .openParen :: j) →
      DerivesExpr .assignment n j test (delimiter .closeParen :: delimiter .semicolon :: k) →
      DerivesStatement (n + 1) (keyword .doWord :: i) (.doWhile s test) k
  | forLoop {n i init i₁ test i₂ update i₃ s k} :
      DerivesForInit n i init (delimiter .semicolon :: i₁) →
      DerivesOption n i₁ test (delimiter .semicolon :: i₂) →
      DerivesOption n i₂ update (delimiter .closeParen :: i₃) →
      DerivesStatement n i₃ s k →
      DerivesStatement (n + 1) (keyword .forWord :: delimiter .openParen :: i)
        (.forLoop init test update s) k
  | function {n name i params j body k} :
      DerivesParameters i params (delimiter .closeParen :: j) → DerivesBlock n j body k →
      DerivesStatement (n + 1)
        (keyword .defWord :: identifier name :: delimiter .openParen :: i)
        (.function name params body) k
  | return {n i argument k} : DerivesOption n i argument (delimiter .semicolon :: k) →
      DerivesStatement (n + 1) (keyword .returnWord :: i) (.return argument) k
  | class {n name i parent j body k} : DerivesSuperclass i parent j → DerivesBlock n j body k →
      DerivesStatement (n + 1) (keyword .classWord :: identifier name :: i)
        (.class name parent body) k

inductive DerivesBlock : Nat → List Lexeme → List Statement → List Lexeme → Prop
  | mk {n i body k} : DerivesStatements n i body (delimiter .closeBrace :: k) →
      DerivesBlock n (delimiter .openBrace :: i) body k

inductive DerivesStatements : Nat → List Lexeme → List Statement → List Lexeme → Prop
  | nil {n k} : DerivesStatements n k [] k
  | cons {n i s j ss k} : DerivesStatement n i s j → DerivesStatements n j ss k →
      DerivesStatements n i (s :: ss) k

end

/-- A list of lexemes is a program that nests at most `n` levels deep. -/
def DerivesProgram (n : Nat) (ts : List Lexeme) (p : Program) : Prop :=
  DerivesStatements n ts p.body []

/-! ## What derivations read

A phrase is never empty, and its first lexeme says that an expression starts there. -/

mutual

theorem DerivesExpr.length_lt {phrase : Phrase} {n : Nat} {i k : List Lexeme} {e : Expr} :
    DerivesExpr phrase n i e k → k.length < i.length
  | .plain h => h.length_lt
  | .assign h h' | .assignMember h h' => by
      have := h.length_lt
      have := h'.length_lt
      rw [List.length_cons] at *
      omega
  | .operand h => h.length_lt
  | .logical h h' | .binary h h' => by
      have := h.length_lt
      have := h'.length_lt
      rw [List.length_cons] at *
      omega
  | .unary h => Nat.lt_succ_of_lt h.length_lt
  | .leftHandSide h => h.length_lt
  | .uncalled h => h.length_lt
  | .superCall h => Nat.lt_succ_of_lt h.length_lt
  | .call h h' => Nat.lt_trans h'.length_lt h.length_lt
  | .primary h => h.length_lt
  | .dot h => by
      have := h.length_lt
      simp only [List.length_cons] at this
      omega
  | .index h h' => by
      have := h.length_lt
      have := h'.length_lt
      rw [List.length_cons] at *
      omega
  | .literal _ => Nat.lt_succ_self _
  | .name => Nat.lt_succ_self _
  | .this => Nat.lt_succ_self _
  | .parenthesized h => by
      have := h.length_lt
      rw [List.length_cons] at *
      omega
  | .new h h' => Nat.lt_succ_of_lt (Nat.lt_trans h'.length_lt h.length_lt)

theorem DerivesArguments.length_lt {n : Nat} {i k : List Lexeme} {es : List Expr} :
    DerivesArguments n i es k → k.length < i.length
  | .none => by
      simp only [List.length_cons]
      omega
  | .some h => by
      have := h.length_lt
      rw [List.length_cons] at *
      omega

theorem DerivesArgumentList.length_lt {n : Nat} {i k : List Lexeme} {es : List Expr} :
    DerivesArgumentList n i es k → k.length < i.length
  | .one h => h.length_lt
  | .more h h' => by
      have := h.length_lt
      have := h'.length_lt
      rw [List.length_cons] at *
      omega

end

def TokenKind.startsPrimary : TokenKind → Bool
  | .number | .string | .identifier | .delimiter .openParen => true
  | .keyword .trueWord | .keyword .falseWord | .keyword .nullWord => true
  | .keyword .newWord | .keyword .thisWord => true
  | _ => false

/-- The kinds of lexemes that a phrase can start with. `super` starts a call only, and an operator
starts what is at least unary. -/
def Phrase.starts : Phrase → TokenKind → Bool
  | .primary, kind | .member, kind => kind.startsPrimary
  | .callMember, kind => kind.startsPrimary || kind = .keyword .superWord
  | _, kind =>
    kind.startsPrimary || kind = .keyword .superWord || kind = .additive || kind = .logicalNot

theorem BinaryLevel.starts_operand {level : BinaryLevel} {kind : TokenKind} :
    level.operand.starts kind = Phrase.starts (.binary level) kind := by
  cases level <;> rfl

theorem DerivesExpr.starts {phrase : Phrase} {n : Nat} {i k : List Lexeme} {e : Expr} :
    DerivesExpr phrase n i e k → phrase.starts (Lexeme.firstKind i) = true
  | .plain h | .assign h _ | .assignMember h _ => h.starts
  | .operand h => BinaryLevel.starts_operand ▸ h.starts
  | .logical h _ | .binary h _ => h.starts
  | @DerivesExpr.unary op _ _ _ _ _ => by cases op <;> rfl
  | .leftHandSide h => by
      have := h.starts
      simp only [Phrase.starts, Bool.or_eq_true] at *
      exact Or.inl (Or.inl this)
  | .uncalled h => by
      have := h.starts
      simp only [Phrase.starts, Bool.or_eq_true] at *
      exact Or.inl this
  | .superCall _ => rfl
  | .call h _ => h.starts
  | .primary h | .dot h | .index h _ => h.starts
  | .literal h => by cases h <;> rfl
  | .name | .this | .parenthesized _ | .new _ _ => rfl

theorem DerivesArguments.starts {n : Nat} {i k : List Lexeme} {es : List Expr} :
    DerivesArguments n i es k → Lexeme.firstKind i = .delimiter .openParen
  | .none | .some _ => rfl

theorem DerivesArgumentList.ofCommaSeparated {n : Nat} {i k : List Lexeme} {es : List Expr}
    (h : CommaSeparated (DerivesExpr .assignment n) i es k) : DerivesArgumentList n i es k := by
  induction h with
  | one h => exact .one h
  | more h _ ih => exact .more h ih

/-! A statement is not empty either, but some of its parts may be. -/

theorem CommaSeparated.length_lt {α : Type} {item : List Lexeme → α → List Lexeme → Prop}
    {i k : List Lexeme} {as : List α} (hitem : ∀ {i a k}, item i a k → k.length < i.length)
    (h : CommaSeparated item i as k) : k.length < i.length := by
  induction h with
  | one h => exact hitem h
  | more h _ ih =>
      have := hitem h
      rw [List.length_cons] at this
      omega

theorem DerivesName.length_lt {i k : List Lexeme} {name : String} (h : DerivesName i name k) :
    k.length < i.length := by
  cases h
  exact Nat.lt_succ_self _

theorem DerivesDeclaration.length_lt {n : Nat} {i k : List Lexeme} {d : Declaration}
    (h : DerivesDeclaration n i d k) : k.length < i.length := by
  cases h with
  | bare => exact Nat.lt_succ_self _
  | initialized h =>
      have := h.length_lt
      simp only [List.length_cons]
      omega

theorem DerivesDeclarations.length_lt {n : Nat} {i k : List Lexeme} {ds : List Declaration}
    (h : DerivesDeclarations n i ds k) : k.length < i.length := by
  cases h with
  | mk h => exact Nat.lt_succ_of_lt (h.length_lt DerivesDeclaration.length_lt)

theorem DerivesOption.length_le {n : Nat} {i k : List Lexeme} {e : Option Expr}
    (h : DerivesOption n i e k) : k.length ≤ i.length := by
  cases h with
  | none => exact Nat.le_refl _
  | some h => exact Nat.le_of_lt h.length_lt

theorem DerivesForInit.length_le {n : Nat} {i k : List Lexeme} {init : Option ForInit}
    (h : DerivesForInit n i init k) : k.length ≤ i.length := by
  cases h with
  | none => exact Nat.le_refl _
  | declarations h => exact Nat.le_of_lt h.length_lt
  | expression h => exact Nat.le_of_lt h.length_lt

theorem DerivesParameters.length_le {i k : List Lexeme} {names : List String}
    (h : DerivesParameters i names k) : k.length ≤ i.length := by
  cases h with
  | none => exact Nat.le_refl _
  | some h => exact Nat.le_of_lt (h.length_lt DerivesName.length_lt)

theorem DerivesSuperclass.length_le {i k : List Lexeme} {parent : Option String}
    (h : DerivesSuperclass i parent k) : k.length ≤ i.length := by
  cases h with
  | none => exact Nat.le_refl _
  | some =>
      simp only [List.length_cons]
      omega

mutual

theorem DerivesStatement.length_lt {n : Nat} {i k : List Lexeme} {s : Statement} :
    DerivesStatement n i s k → k.length < i.length
  | .empty => Nat.lt_succ_self _
  | .expression h => Nat.lt_of_succ_lt h.length_lt
  | .block h => h.length_lt
  | .variable h => Nat.lt_of_succ_lt h.length_lt
  | .ifThen h h' _ | .whileLoop h h' => by
      have := h.length_lt
      have := h'.length_lt
      simp only [List.length_cons] at *
      omega
  | .ifElse h h' h'' => by
      have := h.length_lt
      have := h'.length_lt
      have := h''.length_lt
      simp only [List.length_cons] at *
      omega
  | .doWhile h h' => by
      have := h.length_lt
      have := h'.length_lt
      simp only [List.length_cons] at *
      omega
  | .forLoop h₁ h₂ h₃ h => by
      have := h₁.length_le
      have := h₂.length_le
      have := h₃.length_le
      have := h.length_lt
      simp only [List.length_cons] at *
      omega
  | .function h h' => by
      have := h.length_le
      have := h'.length_lt
      simp only [List.length_cons] at *
      omega
  | .return h => by
      have := h.length_le
      simp only [List.length_cons] at *
      omega
  | .class h h' => by
      have := h.length_le
      have := h'.length_lt
      simp only [List.length_cons] at *
      omega

theorem DerivesBlock.length_lt {n : Nat} {i k : List Lexeme} {ss : List Statement} :
    DerivesBlock n i ss k → k.length < i.length
  | .mk h => by
      have := h.length_le
      simp only [List.length_cons] at *
      omega

theorem DerivesStatements.length_le {n : Nat} {i k : List Lexeme} {ss : List Statement} :
    DerivesStatements n i ss k → k.length ≤ i.length
  | .nil => Nat.le_refl _
  | .cons h h' => Nat.le_of_lt (Nat.lt_of_le_of_lt h'.length_le h.length_lt)

end

theorem DerivesBlock.starts {n : Nat} {i k : List Lexeme} {ss : List Statement} :
    DerivesBlock n i ss k → Lexeme.firstKind i = .delimiter .openBrace
  | .mk _ => rfl

theorem DerivesStatement.starts {n : Nat} {i k : List Lexeme} {s : Statement} :
    DerivesStatement n i s k →
    Lexeme.firstKind i ≠ .delimiter .closeBrace ∧ Lexeme.firstKind i ≠ .endOfInput ∧
      Lexeme.firstKind i ≠ .keyword .elseWord
  | .expression h => by
      have hstart := h.starts
      refine ⟨?_, ?_, ?_⟩ <;> intro heq <;> rw [heq] at hstart <;> cases hstart
  | .block h => by simp [h.starts]
  | .variable h => by
      cases h
      simp
  | .empty | .ifThen _ _ _ | .ifElse _ _ _ | .whileLoop _ _ | .doWhile _ _ | .forLoop _ _ _ _
  | .function _ _ | .return _ | .class _ _ => by simp

theorem DerivesStatement.levels_pos {n : Nat} {i k : List Lexeme} {s : Statement}
    (h : DerivesStatement n i s k) : 0 < n := by
  cases h <;> exact Nat.succ_pos _

/-! ## Putting lists together from the front -/

theorem CommaSeparated.snoc {α : Type} {item : List Lexeme → α → List Lexeme → Prop}
    {i j k : List Lexeme} {as : List α} {a : α}
    (h : CommaSeparated item i as (delimiter .comma :: j)) (ha : item j a k) :
    CommaSeparated item i (as ++ [a]) k := by
  generalize hr : delimiter .comma :: j = r at h
  induction h with
  | one h =>
      subst hr
      exact .more h (.one ha)
  | more h _ ih => exact .more h (ih hr)

theorem DerivesStatements.snoc {n : Nat} {i j k : List Lexeme} {ss : List Statement}
    {s : Statement} : DerivesStatements n i ss j → DerivesStatement n j s k →
      DerivesStatements n i (ss ++ [s]) k
  | .nil, h => .cons h .nil
  | .cons h h', h'' => .cons h (h'.snoc h'')

/-! ## Looser phrases

An operand is also a looser operand, down to those of the loosest operators. Only an expression at
the level of assignments takes a level more. -/

theorem BinaryLevel.rank_of_tighter? {level next : BinaryLevel}
    (h : level.tighter? = some next) : next.rank = level.rank + 1 := by
  cases level <;> cases h <;> rfl

namespace Phrase

def rank : Phrase → Nat
  | .assignment => 0
  | .binary level => level.rank + 1
  | .unary => 7
  | .callMember => 8
  | .member => 9
  | .primary => 10

theorem rank_binary_le {level level' : BinaryLevel} (h : level'.rank ≤ level.rank) :
    (Phrase.binary level').rank ≤ (Phrase.binary level).rank :=
  Nat.succ_le_succ h

/-- The next tighter phrase; the tightest is its own. -/
def tighter : Phrase → Phrase
  | .assignment => .binary .loosest
  | .binary level => level.operand
  | .unary => .callMember
  | .callMember => .member
  | .member | .primary => .primary

theorem rank_tighter {phrase : Phrase} (h : phrase.rank < Phrase.primary.rank) :
    phrase.tighter.rank = phrase.rank + 1 := by
  rcases phrase with _ | ⟨⟨⟩⟩ | _ | _ | _ | _
  case primary => exact absurd h (Nat.lt_irrefl _)
  all_goals rfl

theorem rank_le (phrase : Phrase) : phrase.rank ≤ Phrase.primary.rank := by
  rcases phrase with _ | ⟨⟨⟩⟩ | _ | _ | _ | _ <;> decide

theorem rank_injective {phrase phrase' : Phrase} (h : phrase.rank = phrase'.rank) :
    phrase = phrase' := by
  rcases phrase with _ | ⟨⟨⟩⟩ | _ | _ | _ | _ <;>
    rcases phrase' with _ | ⟨⟨⟩⟩ | _ | _ | _ | _ <;> cases h <;> rfl

end Phrase

theorem DerivesExpr.ofTighter {n : Nat} {i k : List Lexeme} {e : Expr} {phrase : Phrase}
    (hp : phrase ≠ .assignment) (h : DerivesExpr phrase.tighter n i e k) :
    DerivesExpr phrase n i e k := by
  cases phrase with
  | assignment => exact absurd rfl hp
  | binary level => exact .operand h
  | unary => exact .leftHandSide h
  | callMember => exact .uncalled h
  | member => exact .primary h
  | primary => exact h

theorem DerivesExpr.loosen {n : Nat} {i k : List Lexeme} {e : Expr} {phrase phrase' : Phrase}
    (hp : phrase' ≠ .assignment) (hr : phrase'.rank ≤ phrase.rank)
    (h : DerivesExpr phrase n i e k) : DerivesExpr phrase' n i e k := by
  -- Induction on how many phrases lie between the two.
  induction hd : phrase.rank - phrase'.rank generalizing phrase' with
  | zero =>
      obtain rfl := Phrase.rank_injective (by omega : phrase.rank = phrase'.rank)
      exact h
  | succ d ih =>
      have hlt : phrase'.rank < Phrase.primary.rank := by
        have := phrase.rank_le
        omega
      have ht := Phrase.rank_tighter hlt
      have hne : phrase'.tighter ≠ .assignment := by
        intro heq
        rw [heq] at ht
        cases ht
      exact .ofTighter hp (ih hne (by omega) (by omega))

end LetterLang

import LetterLang.Proofs.Derivation
import LetterLang.Proofs.WellFormed

/-!
# Printed trees are derived

The lexemes of a printed tree derive the tree, within the levels that it needs.

- `Piece.lexemes` forgets the blanks between printed tokens.
- `Phrase.precedence` relates the forms of expressions in the grammar to the precedences by which
  parentheses are placed.
- `Expr.Derived` is what is proved of an expression by induction: it is derived at the level of
  assignments, and as every operand that it need not be put in parentheses for.
-/

namespace LetterLang

/-! ## Lexemes of pieces -/

namespace Piece

def lexeme? : Piece → Option Lexeme
  | .token kind text => some (kind, text)
  | .blank _ => none

def lexemes (ps : List Piece) : List Lexeme :=
  ps.filterMap lexeme?

variable (ps qs : List Piece)

@[simp] theorem lexemes_nil : lexemes [] = [] := rfl

@[simp] theorem lexemes_append : lexemes (ps ++ qs) = lexemes ps ++ lexemes qs :=
  List.filterMap_append

@[simp] theorem lexemes_token (kind : TokenKind) (text : String) :
    lexemes (.token kind text :: ps) = (kind, text) :: lexemes ps := rfl

@[simp] theorem lexemes_blank (text : String) : lexemes (.blank text :: ps) = lexemes ps := rfl

@[simp] theorem lexemes_space : lexemes (space :: ps) = lexemes ps := rfl

@[simp] theorem lexemes_delimiter (d : Delimiter) :
    lexemes (delimiter d :: ps) = Lexeme.delimiter d :: lexemes ps := rfl

@[simp] theorem lexemes_keyword (k : Keyword) :
    lexemes (keyword k :: ps) = Lexeme.keyword k :: lexemes ps := rfl

@[simp] theorem lexemes_identifier (name : String) :
    lexemes (identifier name :: ps) = Lexeme.identifier name :: lexemes ps := rfl

@[simp] theorem lexemes_assignOp (op : AssignOp) :
    lexemes (op.piece :: ps) = op.lexeme :: lexemes ps := rfl

@[simp] theorem lexemes_logicalOp (op : LogicalOp) :
    lexemes (op.piece :: ps) = op.lexeme :: lexemes ps := by
  cases op <;> rfl

@[simp] theorem lexemes_binaryOp (op : BinaryOp) :
    lexemes (op.piece :: ps) = op.lexeme :: lexemes ps := by
  cases op <;> rfl

@[simp] theorem lexemes_unaryOp (op : UnaryOp) :
    lexemes (op.piece :: ps) = op.lexeme :: lexemes ps := by
  cases op <;> rfl

@[simp] theorem lexemes_parenthesized :
    lexemes (parenthesized ps) =
      Lexeme.delimiter .openParen :: lexemes ps ++ [Lexeme.delimiter .closeParen] := by
  simp [parenthesized]

end Piece

@[simp] theorem PrintOptions.lexemes_line (options : PrintOptions) (level : Nat)
    (ps : List Piece) : Piece.lexemes (options.line level :: ps) = Piece.lexemes ps := rfl

attribute [simp] Expr.pieces Statement.pieces Statement.linesPieces

/-! ## Phrases and precedences -/

def BinaryLevel.precedence : BinaryLevel → Precedence
  | .logicalOr => .logicalOr
  | .logicalAnd => .logicalAnd
  | .equality => .equality
  | .relational => .relational
  | .additive => .additive
  | .multiplicative => .multiplicative

/-- The precedence that the place of a phrase calls for. No place calls for more than a member:
what is primary in the grammar, `new` for instance, may count as a member in print. -/
def Phrase.precedence : Phrase → Precedence
  | .assignment => .assignment
  | .binary level => level.precedence
  | .unary => .unary
  | .callMember => .call
  | .member | .primary => .member

theorem LogicalOp.precedence_level (op : LogicalOp) :
    (Phrase.binary op.level).precedence = op.precedence := by
  cases op <;> rfl

theorem BinaryOp.precedence_level (op : BinaryOp) :
    (Phrase.binary op.level).precedence = op.precedence := by
  cases op <;> rfl

theorem BinaryLevel.precedence_operand {level : BinaryLevel} {p : Precedence}
    (h : (Phrase.binary level).precedence = p) : level.operand.precedence = p.tighter := by
  subst h
  cases level <;> rfl

def Phrase.isOperand : Phrase → Bool
  | .assignment | .primary => false
  | _ => true

theorem BinaryLevel.isOperand_operand (level : BinaryLevel) : level.operand.isOperand = true := by
  cases level <;> rfl

theorem Phrase.rank_eq_of_isOperand {phrase : Phrase} (h : phrase.isOperand = true) :
    phrase ≠ .assignment ∧ phrase.rank = phrase.precedence.rank := by
  rcases phrase with _ | ⟨⟨⟩⟩ | _ | _ | _ | _
  case assignment => cases h
  case primary => cases h
  all_goals exact ⟨nofun, rfl⟩

/-! ## Expressions -/

/-- The lexemes of the expression derive it, at the level of assignments and as each operand for
which it binds tightly enough. -/
structure Expr.Derived (e : Expr) : Prop where
  assignment : ∀ {n k}, e.levels ≤ n →
    DerivesExpr .assignment (n + 1) (Piece.lexemes e.pieces ++ k) e k
  operand : ∀ {phrase n k}, phrase ≠ .assignment → phrase.rank ≤ e.precedence.rank →
    e.levels ≤ n → DerivesExpr phrase n (Piece.lexemes e.pieces ++ k) e k

namespace Expr

variable {e : Expr} {n : Nat} {k : List Lexeme}

/-- An expression that is derived as it stands is derived in all looser places. -/
theorem Derived.of_phrase {phrase : Phrase} (hp : e.precedence.rank ≤ phrase.rank)
    (hne : e.precedence ≠ .assignment)
    (h : ∀ {n k}, e.levels ≤ n → DerivesExpr phrase n (Piece.lexemes e.pieces ++ k) e k) :
    e.Derived where
  assignment := by
    intro n k hn
    have hpos : 0 < e.precedence.rank := by
      cases he : e.precedence
      case assignment => exact absurd he hne
      all_goals exact Nat.succ_pos _
    exact .plain ((h hn).loosen nofun (Nat.le_trans hpos hp))
  operand := fun hne hr hn => (h hn).loosen hne (Nat.le_trans hr hp)

theorem Derived.of_assignment (he : e.precedence = .assignment)
    (h : ∀ {n k}, e.levels ≤ n →
      DerivesExpr .assignment (n + 1) (Piece.lexemes e.pieces ++ k) e k) : e.Derived where
  assignment := h
  operand := by
    intro phrase n k hne hr
    rw [he] at hr
    exact absurd (Phrase.rank_injective (Nat.le_zero.1 hr)) hne

@[simp] theorem guardedBy_assignment (ps : List Piece) : e.guardedBy .assignment ps = ps :=
  if_neg (Nat.not_lt_zero _)

theorem Derived.of_primary (hne : e.precedence ≠ .assignment)
    (h : ∀ {n k}, e.levels ≤ n → DerivesExpr .primary n (Piece.lexemes e.pieces ++ k) e k) :
    e.Derived := by
  refine .of_phrase ?_ hne h
  cases e.precedence <;> decide

theorem Derived.within (h : e.Derived) (hn : e.levels + 1 ≤ n) :
    DerivesExpr .assignment n (Piece.lexemes e.pieces ++ k) e k := by
  obtain ⟨n, rfl⟩ := Nat.exists_eq_add_of_le' (Nat.one_le_of_lt hn)
  exact h.assignment (Nat.le_of_succ_le_succ hn)

/-- In parentheses an expression is a primary one, one level deeper. -/
theorem Derived.parenthesized (h : e.Derived) (hn : e.levels + 1 ≤ n) :
    DerivesExpr .primary n (Piece.lexemes (Piece.parenthesized e.pieces) ++ k) e k := by
  simp only [Piece.lexemes_parenthesized, List.cons_append, List.append_assoc]
  exact .parenthesized (h.within hn)

/-- An operand is derived with the parentheses that its place calls for. -/
theorem Derived.guarded (h : e.Derived) {phrase : Phrase} {min : Precedence}
    (hp : phrase.isOperand = true) (hmin : phrase.precedence = min)
    (hn : e.levelsIn min e.levels ≤ n) :
    DerivesExpr phrase n (Piece.lexemes (e.guardedBy min e.pieces) ++ k) e k := by
  subst hmin
  obtain ⟨hne, hr⟩ := Phrase.rank_eq_of_isOperand hp
  unfold levelsIn at hn
  unfold guardedBy
  split
  · next hlt =>
    rw [if_pos hlt] at hn
    exact (h.parenthesized hn).loosen hne phrase.rank_le
  · next hlt =>
    rw [if_neg hlt] at hn
    exact h.operand hne (by omega) hn

theorem listPieces_eq_map (es : List Expr) : listPieces es = es.map pieces := by
  induction es with
  | nil => rfl
  | cons e es ih => rw [listPieces, ih, List.map_cons]

theorem levels_le_listLevels {es : List Expr} (he : e ∈ es) : e.levels + 1 ≤ listLevels es := by
  induction es with
  | nil => cases he
  | cons e' es ih =>
      rw [listLevels]
      rcases List.mem_cons.1 he with rfl | he
      · exact Nat.le_max_left _ _
      · exact Nat.le_trans (ih he) (Nat.le_max_right _ _)

end Expr

/-- A list is derived if its items are. -/
theorem commaSeparated_derives {α : Type} {item : List Lexeme → α → List Lexeme → Prop}
    {pieces : α → List Piece} {as : List α} {k : List Lexeme} (hne : as ≠ [])
    (h : ∀ a ∈ as, ∀ k, item (Piece.lexemes (pieces a) ++ k) a k) :
    CommaSeparated item (Piece.lexemes (Piece.separated (as.map pieces)) ++ k) as k := by
  induction as with
  | nil => exact absurd rfl hne
  | cons a as ih =>
      have ha := h a List.mem_cons_self
      cases as with
      | nil => exact .one (ha k)
      | cons b as =>
          have hrest := ih (by simp) fun c hc => h c (List.mem_cons_of_mem _ hc)
          simp only [List.map_cons, Piece.separated, Piece.lexemes_append,
            Piece.lexemes_delimiter, Piece.lexemes_space, List.append_assoc, List.cons_append,
            List.nil_append]
          exact .more (ha _) hrest

namespace Expr

variable {e : Expr} {n : Nat} {k : List Lexeme}

theorem arguments_derives {es : List Expr} (h : ∀ e ∈ es, e.Derived)
    (hn : listLevels es ≤ n) :
    DerivesArguments n
      (Piece.lexemes (Piece.parenthesized (Piece.separated (listPieces es))) ++ k) es k := by
  simp only [Piece.lexemes_parenthesized, List.cons_append, List.append_assoc, List.nil_append]
  cases es with
  | nil => exact .none
  | cons e es =>
      refine .some (.ofCommaSeparated ?_)
      rw [listPieces_eq_map]
      refine commaSeparated_derives (by simp) fun e' he' k => ?_
      exact (h e' he').within (Nat.le_trans (levels_le_listLevels he') hn)

theorem member_derives {object property : Expr} {computed : Bool} (ho : object.Derived)
    (hp : property.Derived) (hid : (computed || property.isIdentifier) = true)
    (hn : max (object.levelsIn .member object.levels)
      (if computed then property.levels + 1 else 0) ≤ n) :
    DerivesExpr .member n
      (Piece.lexemes (object.guardedBy .member object.pieces ++
        Piece.access computed property.pieces) ++ k) (.member object property computed) k := by
  obtain ⟨hon, hpn⟩ := Nat.max_le.1 hn
  have hobject : ∀ k, DerivesExpr .member n
      (Piece.lexemes (object.guardedBy .member object.pieces) ++ k) object k :=
    fun k => ho.guarded rfl rfl hon
  rw [Piece.lexemes_append, List.append_assoc]
  cases computed with
  | true =>
      rw [if_pos rfl] at hpn
      have hproperty := hp.within (k := Lexeme.delimiter .closeBracket :: k) hpn
      simp only [Piece.access, if_true, List.cons_append, Piece.lexemes_delimiter,
        Piece.lexemes_append, Piece.lexemes_nil, List.append_assoc, List.nil_append]
      exact .index (hobject _) hproperty
  | false =>
      cases property with
      | identifier name => exact .dot (hobject _)
      | _ => cases hid

/-! One lemma for each constructor. -/

theorem identifier_derived (name : String) : (Expr.identifier name).Derived :=
  .of_primary nofun fun _ => .name

theorem number_derived {value : Binary64} (h : value.isWhole = true) :
    (Expr.number value).Derived := by
  refine .of_primary nofun fun _ => .literal ?_
  obtain ⟨-, -, hread⟩ := Binary64.ofText?_print h
  obtain ⟨m, w, rfl, -⟩ := Binary64.isWhole_iff.1 h
  exact .number hread rfl

/-- A string is printed between two quotes that it does not hold, if there are such quotes. -/
theorem stringText_eq (value : String) :
    ∃ quote, (quote = '"' ∨ quote = '\'') ∧ (isQuotable value = true → quote ∉ value.toList) ∧
      (stringText value).toList = quote :: value.toList ++ [quote] := by
  unfold stringText isQuotable
  by_cases hd : value.toList.contains '"' = true
  · refine ⟨'\'', .inr rfl, fun hq => ?_, ?_⟩
    · rw [hd] at hq
      simpa using hq
    · rw [if_pos hd]
      simp
  · refine ⟨'"', .inl rfl, fun _ => ?_, ?_⟩
    · simpa using hd
    · rw [if_neg hd]
      simp

theorem string_derived (value : String) : (Expr.string value).Derived := by
  refine .of_primary nofun fun _ => .literal ?_
  obtain ⟨quote, -, -, htext⟩ := stringText_eq value
  have hlex : stringText value = String.ofList (quote :: value.toList ++ [quote]) := by
    rw [← htext, String.ofList_toList]
  have hlit : DerivesLiteral (.string, String.ofList (quote :: value.toList ++ [quote]))
      (.string (String.ofList value.toList)) := .string
  rw [← hlex, String.ofList_toList] at hlit
  exact hlit

theorem boolean_derived : (value : Bool) → (Expr.boolean value).Derived
  | true => .of_primary nofun fun _ => .literal .trueWord
  | false => .of_primary nofun fun _ => .literal .falseWord

theorem null_derived : Expr.null.Derived :=
  .of_primary nofun fun _ => .literal .nullWord

theorem this_derived : Expr.this.Derived :=
  .of_primary nofun fun _ => .this

theorem assign_derived (op : AssignOp) (name : String) {value : Expr} (hv : value.Derived) :
    (Expr.assign op name value).Derived := by
  refine .of_assignment rfl fun {n k} hn => ?_
  rw [levels] at hn
  have hvalue : DerivesExpr .assignment n (Piece.lexemes value.pieces ++ k) value k :=
    hv.within hn
  have hname : DerivesExpr (.binary .loosest) n
      (Lexeme.identifier name :: op.lexeme :: (Piece.lexemes value.pieces ++ k))
      (.identifier name) (op.lexeme :: (Piece.lexemes value.pieces ++ k)) :=
    (identifier_derived name).operand nofun (show 1 ≤ 10 by decide) (Nat.zero_le _)
  simp only [pieces, guardedBy_assignment, Piece.lexemes_identifier, Piece.lexemes_space,
    Piece.lexemes_assignOp, List.cons_append, List.nil_append]
  exact .assign hname hvalue

theorem assignMember_derived (op : AssignOp) {object property value : Expr} {computed : Bool}
    (ho : object.Derived) (hp : property.Derived)
    (hid : (computed || property.isIdentifier) = true) (hv : value.Derived) :
    (Expr.assignMember op object property computed value).Derived := by
  refine .of_assignment rfl fun {n k} hn => ?_
  rw [levels] at hn
  obtain ⟨hmn, hvn⟩ := Nat.max_le.1 hn
  have hvalue : DerivesExpr .assignment n (Piece.lexemes value.pieces ++ k) value k :=
    hv.within hvn
  have hmember := member_derives (k := op.lexeme :: (Piece.lexemes value.pieces ++ k)) ho hp hid hmn
  simp only [pieces, guardedBy_assignment, Piece.lexemes_append, Piece.lexemes_space,
    Piece.lexemes_assignOp, List.append_assoc, List.cons_append, List.nil_append] at hmember ⊢
  exact .assignMember (hmember.loosen nofun (by decide)) hvalue

theorem logical_derived (op : LogicalOp) {left right : Expr} (hl : left.Derived)
    (hr : right.Derived) : (Expr.logical op left right).Derived := by
  have hlevel := op.precedence_level
  have hoperand := BinaryLevel.precedence_operand hlevel
  have hrank : op.precedence.rank = (Phrase.binary op.level).rank := by cases op <;> rfl
  refine .of_phrase (Nat.le_of_eq hrank) (by cases op <;> nofun) fun {n k} hn => ?_
  rw [levels] at hn
  obtain ⟨hln, hrn⟩ := Nat.max_le.1 hn
  simp only [pieces, Piece.lexemes_append, Piece.lexemes_space, Piece.lexemes_logicalOp,
    List.append_assoc, List.cons_append, List.nil_append]
  exact .logical (hl.guarded rfl hlevel hln)
    (hr.guarded (BinaryLevel.isOperand_operand _) hoperand hrn)

theorem binary_derived (op : BinaryOp) {left right : Expr} (hl : left.Derived)
    (hr : right.Derived) : (Expr.binary op left right).Derived := by
  have hlevel := op.precedence_level
  have hoperand := BinaryLevel.precedence_operand hlevel
  have hrank : op.precedence.rank = (Phrase.binary op.level).rank := by cases op <;> rfl
  refine .of_phrase (Nat.le_of_eq hrank) (by cases op <;> nofun) fun {n k} hn => ?_
  rw [levels] at hn
  obtain ⟨hln, hrn⟩ := Nat.max_le.1 hn
  simp only [pieces, Piece.lexemes_append, Piece.lexemes_space, Piece.lexemes_binaryOp,
    List.append_assoc, List.cons_append, List.nil_append]
  exact .binary (hl.guarded rfl hlevel hln)
    (hr.guarded (BinaryLevel.isOperand_operand _) hoperand hrn)

theorem unary_derived (op : UnaryOp) {argument : Expr} (h : argument.Derived) :
    (Expr.unary op argument).Derived := by
  refine .of_phrase (Nat.le_refl Phrase.unary.rank) nofun fun {n k} hn => ?_
  rw [levels] at hn
  obtain ⟨n, rfl⟩ := Nat.exists_eq_add_of_le' (Nat.one_le_of_lt hn)
  simp only [pieces, Piece.lexemes_unaryOp, List.cons_append]
  exact .unary (h.guarded rfl rfl (Nat.le_of_succ_le_succ hn))

theorem member_derived {object property : Expr} {computed : Bool} (ho : object.Derived)
    (hp : property.Derived) (hid : (computed || property.isIdentifier) = true) :
    (Expr.member object property computed).Derived := by
  refine .of_phrase (Nat.le_refl Phrase.member.rank) nofun fun {n k} hn => ?_
  rw [levels] at hn
  rw [pieces]
  exact member_derives ho hp hid hn

theorem call_derived {callee : Expr} {arguments : List Expr}
    (hf : callee.isSuper = true ∨ callee.Derived) (has : ∀ e ∈ arguments, e.Derived) :
    (Expr.call callee arguments).Derived := by
  refine .of_phrase (Nat.le_refl Phrase.callMember.rank) nofun fun {n k} hn => ?_
  rw [levels] at hn
  obtain ⟨hfn, han⟩ := Nat.max_le.1 hn
  rw [pieces, Piece.lexemes_append, List.append_assoc]
  have harguments := arguments_derives (k := k) has han
  rcases hf with hf | hf
  · cases callee with
    | super => exact .superCall harguments
    | _ => cases hf
  · exact .call (hf.guarded rfl rfl hfn) harguments

theorem new_derived {callee : Expr} {arguments : List Expr} (hf : callee.Derived)
    (has : ∀ e ∈ arguments, e.Derived) : (Expr.new callee arguments).Derived := by
  refine .of_primary nofun fun {n k} hn => ?_
  rw [levels] at hn
  obtain ⟨n, rfl⟩ := Nat.exists_eq_add_of_le' (Nat.one_le_of_lt hn)
  obtain ⟨hfn, han⟩ := Nat.max_le.1 (Nat.le_of_succ_le_succ hn)
  have harguments := arguments_derives (k := k) has han
  simp only [pieces, Piece.lexemes_keyword, Piece.lexemes_space, Piece.lexemes_append,
    List.append_assoc, List.cons_append, List.nil_append]
  exact .new (hf.guarded rfl rfl hfn) harguments

end Expr

mutual

/-- **Printed expressions are derived.** -/
theorem Expr.derived : (e : Expr) → e.wellFormed = true → e.Derived
  | .identifier name, _ => identifier_derived name
  | .number _, h => number_derived h
  | .string value, _ => string_derived value
  | .boolean value, _ => boolean_derived value
  | .null, _ => null_derived
  | .this, _ => this_derived
  | .super, h => nomatch h
  | .assign op name value, h => by
      rw [Expr.wellFormed, Bool.and_eq_true] at h
      exact assign_derived op name (value.derived h.2)
  | .assignMember op object property computed value, h => by
      simp only [Expr.wellFormed, Bool.and_eq_true] at h
      exact assignMember_derived op (object.derived h.1.1.1) (property.derived h.1.1.2) h.1.2
        (value.derived h.2)
  | .logical op left right, h => by
      rw [Expr.wellFormed, Bool.and_eq_true] at h
      exact logical_derived op (left.derived h.1) (right.derived h.2)
  | .binary op left right, h => by
      rw [Expr.wellFormed, Bool.and_eq_true] at h
      exact binary_derived op (left.derived h.1) (right.derived h.2)
  | .unary op argument, h => by
      rw [Expr.wellFormed] at h
      exact unary_derived op (argument.derived h)
  | .member object property computed, h => by
      simp only [Expr.wellFormed, Bool.and_eq_true] at h
      exact member_derived (object.derived h.1.1) (property.derived h.1.2) h.2
  | .call callee arguments, h => by
      rw [Expr.wellFormed, Bool.and_eq_true, Bool.or_eq_true] at h
      exact call_derived (h.1.imp id callee.derived) (Expr.listDerived arguments h.2)
  | .new callee arguments, h => by
      rw [Expr.wellFormed, Bool.and_eq_true] at h
      exact new_derived (callee.derived h.1) (Expr.listDerived arguments h.2)

theorem Expr.listDerived : (es : List Expr) → Expr.listWellFormed es = true →
    ∀ e ∈ es, e.Derived
  | [], _ => by simp
  | e :: es, h => by
      rw [Expr.listWellFormed, Bool.and_eq_true] at h
      have he := e.derived h.1
      intro e' he'
      rcases List.mem_cons.1 he' with rfl | he'
      · exact he
      · exact Expr.listDerived es h.2 e' he'

end

/-! ## Parts of statements -/

section Parts

variable {n : Nat} {k : List Lexeme}

theorem Expr.option_derives {e : Option Expr} (h : optionWellFormed e = true)
    (hn : optionLevels e ≤ n) : DerivesOption n (Piece.lexemes (optionPieces e) ++ k) e k := by
  cases e with
  | none => exact .none
  | some e => exact .some ((e.derived h).within hn)

theorem Declaration.derives {d : Declaration} (h : d.wellFormed = true)
    (hn : Expr.optionLevels d.init ≤ n) :
    DerivesDeclaration n (Piece.lexemes d.pieces ++ k) d k := by
  obtain ⟨name, init⟩ := d
  rw [wellFormed, Bool.and_eq_true] at h
  cases init with
  | none => exact .bare
  | some e => exact .initialized ((e.derived h.2).within hn)

theorem Declaration.levels_le_listLevels {d : Declaration} {ds : List Declaration}
    (hd : d ∈ ds) : Expr.optionLevels d.init ≤ listLevels ds := by
  induction ds with
  | nil => cases hd
  | cons d' ds ih =>
      rw [listLevels]
      rcases List.mem_cons.1 hd with rfl | hd
      · exact Nat.le_max_left _ _
      · exact Nat.le_trans (ih hd) (Nat.le_max_right _ _)

theorem Declaration.list_derives {ds : List Declaration} (h : listWellFormed ds = true)
    (hn : listLevels ds ≤ n) :
    DerivesDeclarations n (Piece.lexemes (listPieces ds) ++ k) ds k := by
  simp only [listWellFormed, Bool.and_eq_true, Bool.not_eq_true', List.isEmpty_eq_false_iff,
    List.all_eq_true] at h
  refine .mk (commaSeparated_derives h.1 fun d hd k => ?_)
  exact Declaration.derives (h.2 d hd) (Nat.le_trans (levels_le_listLevels hd) hn)

theorem ForInit.option_derives {init : Option ForInit} (h : init.all wellFormed = true)
    (hn : optionLevels init ≤ n) :
    DerivesForInit n (Piece.lexemes ((init.map pieces).getD []) ++ k) init k := by
  match init with
  | none => exact .none
  | some (.declarations ds) => exact .declarations (Declaration.list_derives h hn)
  | some (.expression e) => exact .expression ((e.derived h).within hn)

theorem parameters_derives (params : List String) :
    DerivesParameters
      (Piece.lexemes (Piece.separated (params.map fun p => [.identifier p])) ++ k) params k := by
  cases params with
  | nil => exact .none
  | cons name names =>
      exact .some (commaSeparated_derives (by simp) fun name _ k => .mk)

end Parts

/-! ## Statements -/

@[simp] theorem PrintOptions.lexemes_block (options : PrintOptions) (level : Nat)
    (lines : List Piece) :
    Piece.lexemes (options.block level lines) =
      Lexeme.delimiter .openBrace :: Piece.lexemes lines ++ [Lexeme.delimiter .closeBrace] := by
  unfold PrintOptions.block
  split
  · next h =>
    rw [List.isEmpty_iff] at h
    rw [h]
    rfl
  · simp

@[simp] theorem Expr.lexemes_headPieces (word : Keyword) (test : Expr) :
    Piece.lexemes (test.headPieces word) =
      Lexeme.keyword word :: Lexeme.delimiter .openParen :: Piece.lexemes test.pieces ++
        [Lexeme.delimiter .closeParen] := by
  simp [headPieces]

/-- The lexemes of the statement derive it, unless it ends in an open `if` and an `else` follows. -/
def Statement.Derived (options : PrintOptions) (s : Statement) : Prop :=
  ∀ (level : Nat) {n k}, s.levels ≤ n →
    (s.endsOpen = true → Lexeme.firstKind k ≠ .keyword .elseWord) →
    DerivesStatement n (Piece.lexemes (s.pieces options level) ++ k) s k

def Statement.ListDerived (options : PrintOptions) (ss : List Statement) : Prop :=
  ∀ (level : Nat) {n k}, Statement.listLevels ss ≤ n → Lexeme.firstKind k ≠ .keyword .elseWord →
    DerivesStatements n (Piece.lexemes (Statement.linesPieces options level ss) ++ k) ss k

theorem DerivesStatements.starts {n : Nat} {i k : List Lexeme} {ss : List Statement}
    (h : DerivesStatements n i ss k) (hk : Lexeme.firstKind k ≠ .keyword .elseWord) :
    Lexeme.firstKind i ≠ .keyword .elseWord := by
  cases h with
  | nil => exact hk
  | cons h _ => exact h.starts.2.2

namespace Statement

variable {options : PrintOptions} {level n : Nat} {k : List Lexeme} {s : Statement}
  {ss : List Statement}

theorem ListDerived.block (h : ListDerived options ss) (hn : listLevels ss ≤ n) :
    DerivesBlock n
      (Piece.lexemes (options.block level (linesPieces options (level + 1) ss)) ++ k) ss k := by
  simp only [PrintOptions.lexemes_block, List.cons_append, List.append_assoc, List.nil_append]
  exact .mk (h _ hn nofun)

theorem ListDerived.cons (h : s.Derived options) (h' : ListDerived options ss) :
    ListDerived options (s :: ss) := by
  intro level n k hn hk
  rw [listLevels] at hn
  obtain ⟨hsn, hssn⟩ := Nat.max_le.1 hn
  -- What follows the first statement is a statement or the end of the list, never an `else`.
  have hrest := h' level hssn hk
  simp only [linesPieces, PrintOptions.lexemes_line, List.cons_append, Piece.lexemes_append,
    List.append_assoc]
  exact .cons (h _ hsn fun _ => hrest.starts hk) hrest

/-- A statement takes one level more than its parts, however it is derived. -/
theorem Derived.of_parts {inner : Nat} (hs : s.levels = inner + 1)
    (h : ∀ level n k, inner ≤ n → (s.endsOpen = true → Lexeme.firstKind k ≠ .keyword .elseWord) →
      DerivesStatement (n + 1) (Piece.lexemes (s.pieces options level) ++ k) s k) :
    s.Derived options := by
  intro level n k hn hk
  rw [hs] at hn
  cases n with
  | zero => exact absurd hn (Nat.not_succ_le_zero inner)
  | succ n => exact h level n k (Nat.le_of_succ_le_succ hn) hk

theorem expression_derived {e : Expr} (h : e.Derived) :
    (Statement.expression e).Derived options := by
  apply Derived.of_parts rfl
  intro level n k hn _
  simp only [pieces, Piece.lexemes_append, Piece.lexemes_delimiter, Piece.lexemes_nil,
    List.append_assoc, List.cons_append, List.nil_append]
  exact .expression (h.within hn)

theorem empty_derived : Statement.empty.Derived options := by
  apply Derived.of_parts rfl
  intro level n k _ _
  exact .empty

theorem block_derived (h : ListDerived options ss) : (Statement.block ss).Derived options := by
  apply Derived.of_parts rfl
  intro level n k hn _
  rw [pieces]
  exact .block (h.block hn)

theorem variable_derived {ds : List Declaration} (h : Declaration.listWellFormed ds = true) :
    (Statement.variable ds).Derived options := by
  apply Derived.of_parts rfl
  intro level n k hn _
  simp only [pieces, Piece.lexemes_append, Piece.lexemes_delimiter, Piece.lexemes_nil,
    List.append_assoc, List.cons_append, List.nil_append]
  exact .variable (Declaration.list_derives h hn)

theorem ifThen_derived {test : Expr} (ht : test.Derived) (h : s.Derived options) :
    (Statement.ifThen test s).Derived options := by
  apply Derived.of_parts rfl
  intro level n k hn hk
  obtain ⟨htest, hs⟩ := Nat.max_le.1 hn
  have helse := hk rfl
  simp only [pieces, Piece.lexemes_append, Expr.lexemes_headPieces, Piece.lexemes_space,
    List.append_assoc, List.cons_append, List.nil_append]
  exact .ifThen (ht.within htest) (h _ hs fun _ => helse) helse

/-- An `else` goes to the `if` before it only if no `if` in between is open. -/
theorem ifElse_derived {test : Expr} {s' : Statement} (ht : test.Derived)
    (h : s.Derived options) (hopen : s.endsOpen = false) (h' : s'.Derived options) :
    (Statement.ifElse test s s').Derived options := by
  apply Derived.of_parts rfl
  intro level n k hn hk
  obtain ⟨hn, hs'⟩ := Nat.max_le.1 hn
  obtain ⟨htest, hs⟩ := Nat.max_le.1 hn
  simp only [pieces, Piece.lexemes_append, Expr.lexemes_headPieces, Piece.lexemes_space,
    Piece.lexemes_keyword, List.append_assoc, List.cons_append, List.nil_append]
  refine .ifElse (ht.within htest) (h _ hs fun hs => ?_) (h' _ hs' hk)
  rw [hopen] at hs
  cases hs

theorem whileLoop_derived {test : Expr} (ht : test.Derived) (h : s.Derived options) :
    (Statement.whileLoop test s).Derived options := by
  apply Derived.of_parts rfl
  intro level n k hn hk
  obtain ⟨htest, hs⟩ := Nat.max_le.1 hn
  simp only [pieces, Piece.lexemes_append, Expr.lexemes_headPieces, Piece.lexemes_space,
    List.append_assoc, List.cons_append, List.nil_append]
  exact .whileLoop (ht.within htest) (h _ hs hk)

theorem doWhile_derived {test : Expr} (h : s.Derived options) (ht : test.Derived) :
    (Statement.doWhile s test).Derived options := by
  apply Derived.of_parts rfl
  intro level n k hn _
  obtain ⟨hs, htest⟩ := Nat.max_le.1 hn
  simp only [pieces, Piece.lexemes_append, Expr.lexemes_headPieces, Piece.lexemes_space,
    Piece.lexemes_keyword, Piece.lexemes_delimiter, Piece.lexemes_nil, List.append_assoc,
    List.cons_append, List.nil_append]
  exact .doWhile (h _ hs fun _ => nofun) (ht.within htest)

theorem forLoop_derived {init : Option ForInit} {test update : Option Expr}
    (hinit : init.all ForInit.wellFormed = true) (htest : Expr.optionWellFormed test = true)
    (hupdate : Expr.optionWellFormed update = true) (h : s.Derived options) :
    (Statement.forLoop init test update s).Derived options := by
  apply Derived.of_parts rfl
  intro level n k hn hk
  obtain ⟨hheader, hn⟩ := Nat.max_le.1 hn
  obtain ⟨hinit', htest'⟩ := Nat.max_le.1 hheader
  obtain ⟨hupdate', hs⟩ := Nat.max_le.1 hn
  simp only [pieces, Piece.lexemes_append, Piece.lexemes_parenthesized, Piece.lexemes_space,
    Piece.lexemes_keyword, Piece.lexemes_delimiter, List.append_assoc, List.cons_append,
    List.nil_append]
  exact .forLoop (ForInit.option_derives hinit hinit') (Expr.option_derives htest htest')
    (Expr.option_derives hupdate hupdate') (h _ hs hk)

theorem function_derived (name : String) (params : List String) (h : ListDerived options ss) :
    (Statement.function name params ss).Derived options := by
  apply Derived.of_parts rfl
  intro level n k hn _
  rw [pieces, List.append_assoc, Piece.lexemes_append, Piece.lexemes_append]
  simp only [Piece.lexemes_parenthesized, Piece.lexemes_space, Piece.lexemes_keyword,
    Piece.lexemes_identifier, List.append_assoc, List.cons_append, List.nil_append]
  exact .function (parameters_derives params) (h.block hn)

theorem return_derived {argument : Option Expr} (h : Expr.optionWellFormed argument = true) :
    (Statement.return argument).Derived options := by
  apply Derived.of_parts rfl
  intro level n k hn _
  simp only [pieces, Piece.lexemes_append, Piece.lexemes_keyword, Piece.lexemes_delimiter,
    Piece.lexemes_nil, List.append_assoc, List.cons_append, List.nil_append]
  exact .return (Expr.option_derives h hn)

theorem class_derived (name : String) (parent : Option String) (h : ListDerived options ss) :
    (Statement.class name parent ss).Derived options := by
  apply Derived.of_parts rfl
  intro level n k hn _
  cases parent with
  | none =>
      simp only [pieces, Piece.lexemes_space, Piece.lexemes_keyword, Piece.lexemes_identifier,
        List.cons_append, List.nil_append]
      exact .class .none (h.block hn)
  | some parent =>
      simp only [pieces, Piece.lexemes_space, Piece.lexemes_keyword, Piece.lexemes_identifier,
        List.cons_append, List.nil_append]
      exact .class .some (h.block hn)

end Statement

mutual

/-- **Printed statements are derived.** -/
theorem Statement.derived (options : PrintOptions) :
    (s : Statement) → s.wellFormed = true → s.Derived options
  | .expression e, h => expression_derived (e.derived h)
  | .empty, _ => empty_derived
  | .block body, h => block_derived (Statement.listDerived options body h)
  | .variable _, h => variable_derived h
  | .ifThen test consequent, h => by
      rw [Statement.wellFormed, Bool.and_eq_true] at h
      exact ifThen_derived (test.derived h.1) (consequent.derived options h.2)
  | .ifElse test consequent alternate, h => by
      simp only [Statement.wellFormed, Bool.and_eq_true, Bool.not_eq_true'] at h
      exact ifElse_derived (test.derived h.1.1.1) (consequent.derived options h.1.1.2) h.1.2
        (alternate.derived options h.2)
  | .whileLoop test body, h => by
      rw [Statement.wellFormed, Bool.and_eq_true] at h
      exact whileLoop_derived (test.derived h.1) (body.derived options h.2)
  | .doWhile body test, h => by
      rw [Statement.wellFormed, Bool.and_eq_true] at h
      exact doWhile_derived (body.derived options h.1) (test.derived h.2)
  | .forLoop init test update body, h => by
      simp only [Statement.wellFormed, Bool.and_eq_true] at h
      exact forLoop_derived h.1.1.1 h.1.1.2 h.1.2 (body.derived options h.2)
  | .function name params body, h => by
      rw [Statement.wellFormed, Bool.and_eq_true] at h
      exact function_derived name params (Statement.listDerived options body h.2)
  | .return _, h => return_derived h
  | .class name parent body, h => by
      rw [Statement.wellFormed, Bool.and_eq_true] at h
      exact class_derived name parent (Statement.listDerived options body h.2)

theorem Statement.listDerived (options : PrintOptions) :
    (ss : List Statement) → Statement.listWellFormed ss = true → ListDerived options ss
  | [], _ => fun _ _ _ _ _ => .nil
  | s :: ss, h => by
      rw [Statement.listWellFormed, Bool.and_eq_true] at h
      exact ListDerived.cons (s.derived options h.1) (Statement.listDerived options ss h.2)

end

/-- The lexemes of a program are those of its statements, one to a line. -/
theorem Program.lexemes_pieces (p : Program) (options : PrintOptions) :
    Piece.lexemes (p.pieces options) =
      Piece.lexemes (Statement.linesPieces options 0 p.body) := by
  unfold Program.pieces
  split
  · next h => rw [h, Statement.linesPieces]
  · next s ss h => simp [h]

/-- **Printed programs are derived**, within the levels that they need. -/
theorem Program.derives (p : Program) (options : PrintOptions) (h : p.wellFormed = true) {n : Nat}
    (hn : p.levels ≤ n) : DerivesProgram n (Piece.lexemes (p.pieces options)) p := by
  have hbody := Statement.listDerived options p.body h 0 (k := []) hn nofun
  rw [List.append_nil, ← p.lexemes_pieces] at hbody
  exact hbody

end LetterLang

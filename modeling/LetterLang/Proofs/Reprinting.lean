import LetterLang.Proofs.Printed

/-!
# From a source to its print

The lexemes that derive a tree are compared with the lexemes of the printed tree.

- `Reprinted ts ts'`: the second list is the first one without some matched pairs of parentheses,
  its numbers and strings spelled as they are printed, and with nothing else changed.
- `Reprints i ps k` says the same of the front of `i`, up to the rest `k`, and of printed pieces.
  It is closed under the ways in which pieces are put together, so that the proofs follow the
  layout of each construct.
- `DerivesExpr.reprints` and its like say of all that is derived that it is well-formed, that it
  needs no more levels than it was derived within, and that its lexemes are reprinted. The
  parentheses that are printed are in every source: an operand that binds too loosely for its place
  cannot be derived there without them.
-/

namespace LetterLang

/-! ## Reprinted lexemes -/

/-- The second lexeme is the first one as it is printed: a number has the text of its value, which
reads as the same value, a string has the same content between quotes, and every other lexeme is
the same. -/
inductive Lexeme.Respelled : Lexeme → Lexeme → Prop
  | number {text : String} {v : Binary64} (h : Binary64.ofText? text = some v)
      (h' : Binary64.ofText? v.print = some v) : Respelled (.number, text) (.number, v.print)
  | string {quote quote' : Char} {body : List Char} (h : quote = '"' ∨ quote = '\'')
      (h' : quote' = '"' ∨ quote' = '\'') :
      Respelled (.string, String.ofList (quote :: body ++ [quote]))
        (.string, String.ofList (quote' :: body ++ [quote']))
  | other {t : Lexeme} (h : t.1 ≠ .number) (h' : t.1 ≠ .string) : Respelled t t

open Lexeme (delimiter keyword identifier)

/-- The second list is the first one without some matched pairs of parentheses, respelled. -/
inductive Reprinted : List Lexeme → List Lexeme → Prop
  | nil : Reprinted [] []
  | lexeme {t t' ts ts'} : t.1 ≠ .delimiter .openParen → t.1 ≠ .delimiter .closeParen →
      Lexeme.Respelled t t' → Reprinted ts ts' → Reprinted (t :: ts) (t' :: ts')
  | kept {ts ts' us us'} : Reprinted ts ts' → Reprinted us us' →
      Reprinted (delimiter .openParen :: ts ++ delimiter .closeParen :: us)
        (delimiter .openParen :: ts' ++ delimiter .closeParen :: us')
  | dropped {ts ts' us us'} : Reprinted ts ts' → Reprinted us us' →
      Reprinted (delimiter .openParen :: ts ++ delimiter .closeParen :: us) (ts' ++ us')

namespace Reprinted

variable {ts ts' us us' : List Lexeme}

theorem append (h : Reprinted ts ts') (h' : Reprinted us us') :
    Reprinted (ts ++ us) (ts' ++ us') := by
  induction h with
  | nil => exact h'
  | lexeme ho hc ht _ ih => exact .lexeme ho hc ht ih
  | kept hin _ _ ih =>
      simp only [List.cons_append, List.append_assoc]
      exact .kept hin ih
  | dropped hin _ _ ih =>
      simp only [List.cons_append, List.append_assoc]
      exact .dropped hin ih

theorem length_le (h : Reprinted ts ts') : ts'.length ≤ ts.length := by
  induction h with
  | nil => exact Nat.le_refl _
  | lexeme _ _ _ _ ih => exact Nat.succ_le_succ ih
  | kept _ _ ih ih' =>
      simp only [List.cons_append, List.length_cons, List.length_append]
      omega
  | dropped _ _ ih ih' =>
      simp only [List.cons_append, List.length_cons, List.length_append]
      omega

end Reprinted

/-! ## Reprinted pieces -/

def Lexeme.AllSpelled (ts : List Lexeme) : Prop :=
  ∀ t ∈ ts, t.Spelled

theorem Lexeme.AllSpelled.tail {t : Lexeme} {ts : List Lexeme} (h : AllSpelled (t :: ts)) :
    AllSpelled ts :=
  fun u hu => h u (List.mem_cons_of_mem t hu)

/-- The front of the lexemes `i`, up to the rest `k`, is reprinted as the pieces `ps`. -/
def Reprints (i : List Lexeme) (ps : List Piece) (k : List Lexeme) : Prop :=
  ∃ used, i = used ++ k ∧ Reprinted used (Piece.lexemes ps)

namespace Reprints

variable {i j k : List Lexeme} {ps qs : List Piece}

theorem nil : Reprints k [] k :=
  ⟨[], rfl, .nil⟩

theorem append (h : Reprints i ps j) (h' : Reprints j qs k) : Reprints i (ps ++ qs) k := by
  obtain ⟨used, rfl, h⟩ := h
  obtain ⟨used', rfl, h'⟩ := h'
  refine ⟨used ++ used', ?_, ?_⟩
  · rw [List.append_assoc]
  · rw [Piece.lexemes_append]
    exact h.append h'

theorem spelled (h : Reprints i ps k) (hs : Lexeme.AllSpelled i) : Lexeme.AllSpelled k := by
  obtain ⟨used, rfl, -⟩ := h
  intro t ht
  exact hs t (List.mem_append_right used ht)

theorem space (h : Reprints i ps k) : Reprints i (.space :: ps) k :=
  h

theorem line (options : PrintOptions) (level : Nat) (h : Reprints i ps k) :
    Reprints i (options.line level :: ps) k :=
  h

theorem lexeme {t t' : Lexeme} {piece : Piece} (hp : piece.lexeme? = some t')
    (ho : t.1 ≠ .delimiter .openParen) (hc : t.1 ≠ .delimiter .closeParen)
    (ht : Lexeme.Respelled t t') (h : Reprints i ps k) : Reprints (t :: i) (piece :: ps) k := by
  obtain ⟨used, rfl, h⟩ := h
  have hlexemes : Piece.lexemes (piece :: ps) = t' :: Piece.lexemes ps :=
    List.filterMap_cons_some hp
  refine ⟨t :: used, rfl, ?_⟩
  rw [hlexemes]
  exact .lexeme ho hc ht h

theorem keyword (w : Keyword) (h : Reprints i ps k) :
    Reprints (keyword w :: i) (.keyword w :: ps) k :=
  h.lexeme rfl nofun nofun (.other nofun nofun)

theorem identifier (name : String) (h : Reprints i ps k) :
    Reprints (identifier name :: i) (.identifier name :: ps) k :=
  h.lexeme rfl nofun nofun (.other nofun nofun)

theorem delimiter {d : Delimiter} (ho : d ≠ .openParen) (hc : d ≠ .closeParen)
    (h : Reprints i ps k) : Reprints (delimiter d :: i) (.delimiter d :: ps) k := by
  refine h.lexeme rfl ?_ ?_ (.other nofun nofun)
  · intro heq
    exact ho (TokenKind.delimiter.inj heq)
  · intro heq
    exact hc (TokenKind.delimiter.inj heq)

theorem semicolon (h : Reprints i ps k) :
    Reprints (Lexeme.delimiter .semicolon :: i) (.delimiter .semicolon :: ps) k :=
  h.delimiter nofun nofun

theorem assignOp (op : AssignOp) (h : Reprints i ps k) :
    Reprints (op.lexeme :: i) (op.piece :: ps) k := by
  cases op <;> exact h.lexeme rfl nofun nofun (.other nofun nofun)

theorem logicalOp (op : LogicalOp) (h : Reprints i ps k) :
    Reprints (op.lexeme :: i) (op.piece :: ps) k := by
  cases op <;> exact h.lexeme rfl nofun nofun (.other nofun nofun)

theorem binaryOp (op : BinaryOp) (h : Reprints i ps k) :
    Reprints (op.lexeme :: i) (op.piece :: ps) k := by
  cases op <;> exact h.lexeme rfl nofun nofun (.other nofun nofun)

theorem unaryOp (op : UnaryOp) (h : Reprints i ps k) :
    Reprints (op.lexeme :: i) (op.piece :: ps) k := by
  cases op <;> exact h.lexeme rfl nofun nofun (.other nofun nofun)

theorem parenthesized (h : Reprints i ps (Lexeme.delimiter .closeParen :: k)) :
    Reprints (Lexeme.delimiter .openParen :: i) (Piece.parenthesized ps) k := by
  obtain ⟨used, rfl, h⟩ := h
  refine ⟨Lexeme.delimiter .openParen :: used ++ [Lexeme.delimiter .closeParen], ?_, ?_⟩
  · simp only [List.cons_append, List.append_assoc, List.nil_append]
  · rw [Piece.lexemes_parenthesized]
    exact .kept h .nil

theorem bare (h : Reprints i ps (Lexeme.delimiter .closeParen :: k)) :
    Reprints (Lexeme.delimiter .openParen :: i) ps k := by
  obtain ⟨used, rfl, h⟩ := h
  refine ⟨Lexeme.delimiter .openParen :: used ++ [Lexeme.delimiter .closeParen], ?_, ?_⟩
  · simp only [List.cons_append, List.append_assoc, List.nil_append]
  · have hdropped := Reprinted.dropped h .nil
    rw [List.append_nil] at hdropped
    exact hdropped

/-- The lines between braces are followed by one more line, unless there are none. -/
theorem block (options : PrintOptions) (level : Nat)
    (h : Reprints i ps (Lexeme.delimiter .closeBrace :: k)) :
    Reprints (Lexeme.delimiter .openBrace :: i) (options.block level ps) k := by
  unfold PrintOptions.block
  split
  · next hempty =>
    rw [List.isEmpty_iff] at hempty
    subst hempty
    exact .delimiter nofun nofun (h.append (.delimiter nofun nofun .nil))
  · exact .delimiter nofun nofun (h.append (.line options level (.delimiter nofun nofun .nil)))

theorem separated {pss : List (List Piece)} (hne : pss ≠ [])
    (h : Reprints i ps (Lexeme.delimiter .comma :: j)) (h' : Reprints j (Piece.separated pss) k) :
    Reprints i (Piece.separated (ps :: pss)) k := by
  cases pss with
  | nil => exact absurd rfl hne
  | cons qs pss =>
      rw [Piece.separated, List.append_assoc]
      · exact h.append (.delimiter (by rintro ⟨⟩) (by rintro ⟨⟩) h'.space)
      · exact hne

end Reprints

/-! ## Operands -/

/-- The front of `i` is reprinted as an operand in a place that calls for `min`: either the operand
binds tightly enough, or it stands in parentheses and has one level less. -/
def Expr.ReprintsIn (min : Precedence) (n : Nat) (i : List Lexeme) (e : Expr)
    (k : List Lexeme) : Prop :=
  (min.rank ≤ e.precedence.rank ∧ e.levels ≤ n ∧ Reprints i e.pieces k) ∨
    ∃ j, i = delimiter .openParen :: j ∧ e.levels + 1 ≤ n ∧
      Reprints j e.pieces (delimiter .closeParen :: k)

namespace Expr

variable {min min' : Precedence} {n : Nat} {i j k : List Lexeme} {e : Expr}

theorem ReprintsIn.looser (hr : min'.rank ≤ min.rank) (h : e.ReprintsIn min n i k) :
    e.ReprintsIn min' n i k := by
  rcases h with ⟨hmin, h⟩ | h
  · exact .inl ⟨Nat.le_trans hr hmin, h⟩
  · exact .inr h

theorem ReprintsIn.alone (h : e.ReprintsIn min n i k) :
    e.levels ≤ n ∧ Reprints i e.pieces k := by
  rcases h with ⟨-, hn, h⟩ | ⟨j, rfl, hn, h⟩
  · exact ⟨hn, h⟩
  · exact ⟨Nat.le_of_succ_le hn, h.bare⟩

/-- The parentheses that are printed around the operand stand there already. -/
theorem ReprintsIn.guarded (h : e.ReprintsIn min n i k) :
    e.levelsIn min e.levels ≤ n ∧ Reprints i (e.guardedBy min e.pieces) k := by
  unfold levelsIn guardedBy
  split
  · next hlt =>
    rcases h with ⟨hmin, -⟩ | ⟨j, rfl, hn, h⟩
    · exact absurd hlt (Nat.not_lt.2 hmin)
    · exact ⟨hn, h.parenthesized⟩
  · exact h.alone

/-! One lemma for each constructor: an expression is reprinted if its parts are. -/

/-- An expression of one lexeme takes no level and stands anywhere. -/
theorem single_reprints {t : Lexeme} {piece : Piece} (hp : e.pieces = [piece])
    (hprec : e.precedence = .primary) (hlevels : e.levels = 0)
    (h : ∀ k, Reprints (t :: k) [piece] k) : e.ReprintsIn .member n (t :: k) k := by
  refine .inl ⟨?_, ?_, ?_⟩
  · rw [hprec]
    decide
  · rw [hlevels]
    exact Nat.zero_le n
  · rw [hp]
    exact h k

theorem logical_reprints (op : LogicalOp) {left right : Expr}
    (hl : left.ReprintsIn op.precedence n i (op.lexeme :: j))
    (hr : right.ReprintsIn op.precedence.tighter n j k) :
    (Expr.logical op left right).ReprintsIn op.precedence n i k := by
  obtain ⟨hln, hl⟩ := hl.guarded
  obtain ⟨hrn, hr⟩ := hr.guarded
  refine .inl ⟨Nat.le_refl _, ?_, ?_⟩
  · rw [levels]
    exact Nat.max_le.2 ⟨hln, hrn⟩
  · rw [pieces, List.append_assoc]
    exact hl.append (.space (.logicalOp op hr.space))

theorem binary_reprints (op : BinaryOp) {left right : Expr}
    (hl : left.ReprintsIn op.precedence n i (op.lexeme :: j))
    (hr : right.ReprintsIn op.precedence.tighter n j k) :
    (Expr.binary op left right).ReprintsIn op.precedence n i k := by
  obtain ⟨hln, hl⟩ := hl.guarded
  obtain ⟨hrn, hr⟩ := hr.guarded
  refine .inl ⟨Nat.le_refl _, ?_, ?_⟩
  · rw [levels]
    exact Nat.max_le.2 ⟨hln, hrn⟩
  · rw [pieces, List.append_assoc]
    exact hl.append (.space (.binaryOp op hr.space))

theorem unary_reprints (op : UnaryOp) {argument : Expr} (h : argument.ReprintsIn .unary n i k) :
    (Expr.unary op argument).ReprintsIn .unary (n + 1) (op.lexeme :: i) k := by
  obtain ⟨hn, h⟩ := h.guarded
  refine .inl ⟨Nat.le_refl _, ?_, ?_⟩
  · rw [levels]
    exact Nat.succ_le_succ hn
  · rw [pieces]
    exact h.unaryOp op

theorem dot_reprints {name : String} {object : Expr}
    (h : object.ReprintsIn .member n i (delimiter .dot :: Lexeme.identifier name :: k)) :
    (Expr.member object (.identifier name) false).ReprintsIn .member n i k := by
  obtain ⟨hn, h⟩ := h.guarded
  refine .inl ⟨Nat.le_refl _, ?_, ?_⟩
  · rw [levels]
    exact Nat.max_le.2 ⟨hn, Nat.zero_le n⟩
  · rw [pieces]
    exact h.append (.delimiter nofun nofun (.identifier name .nil))

theorem index_reprints {object property : Expr}
    (ho : object.ReprintsIn .member n i (delimiter .openBracket :: j))
    (hn : property.levels + 1 ≤ n)
    (hp : Reprints j property.pieces (delimiter .closeBracket :: k)) :
    (Expr.member object property true).ReprintsIn .member n i k := by
  obtain ⟨hon, ho⟩ := ho.guarded
  refine .inl ⟨Nat.le_refl _, ?_, ?_⟩
  · rw [levels, if_pos rfl]
    exact Nat.max_le.2 ⟨hon, hn⟩
  · rw [pieces]
    exact ho.append (.delimiter nofun nofun (hp.append (.delimiter nofun nofun .nil)))

def ArgumentsReprint (n : Nat) (i : List Lexeme) (es : List Expr) (k : List Lexeme) : Prop :=
  listLevels es ≤ n ∧ Reprints i (Piece.parenthesized (Piece.separated (listPieces es))) k

theorem call_reprints {callee : Expr} {arguments : List Expr}
    (h : callee.ReprintsIn .call n i j) (has : ArgumentsReprint n j arguments k) :
    (Expr.call callee arguments).ReprintsIn .call n i k := by
  obtain ⟨hn, h⟩ := h.guarded
  refine .inl ⟨Nat.le_refl _, ?_, ?_⟩
  · rw [levels]
    exact Nat.max_le.2 ⟨hn, has.1⟩
  · rw [pieces]
    exact h.append has.2

theorem super_reprints : Expr.super.ReprintsIn .call n (keyword .superWord :: k) k :=
  (single_reprints rfl rfl rfl fun _ => .keyword _ .nil).looser (by decide)

theorem new_reprints {callee : Expr} {arguments : List Expr}
    (h : callee.ReprintsIn .member n i j) (has : ArgumentsReprint n j arguments k) :
    (Expr.new callee arguments).ReprintsIn .member (n + 1) (keyword .newWord :: i) k := by
  obtain ⟨hn, h⟩ := h.guarded
  refine .inl ⟨Nat.le_refl _, ?_, ?_⟩
  · rw [levels]
    exact Nat.succ_le_succ (Nat.max_le.2 ⟨hn, has.1⟩)
  · rw [pieces]
    exact .keyword _ (.space (h.append has.2))

theorem assign_reprints (op : AssignOp) {name : String} {value : Expr}
    (ht : (Expr.identifier name).ReprintsIn min n i (op.lexeme :: j)) (hn : value.levels + 1 ≤ n)
    (hv : Reprints j value.pieces k) :
    (Expr.assign op name value).levels ≤ n ∧ Reprints i (Expr.assign op name value).pieces k := by
  refine ⟨?_, ?_⟩
  · rw [levels]
    exact hn
  · rw [pieces, guardedBy_assignment]
    exact ht.alone.2.append (.space (.assignOp op hv.space))

/-- What is assigned to is printed as the member that it is. -/
theorem assignMember_reprints (op : AssignOp) {object property value : Expr} {computed : Bool}
    (ht : (Expr.member object property computed).ReprintsIn min n i (op.lexeme :: j))
    (hn : value.levels + 1 ≤ n) (hv : Reprints j value.pieces k) :
    (Expr.assignMember op object property computed value).levels ≤ n ∧
      Reprints i (Expr.assignMember op object property computed value).pieces k := by
  obtain ⟨htn, ht⟩ := ht.alone
  rw [levels] at htn
  rw [pieces] at ht
  refine ⟨?_, ?_⟩
  · rw [levels]
    exact Nat.max_le.2 ⟨htn, hn⟩
  · rw [pieces, guardedBy_assignment, List.append_assoc]
    exact ht.append (.space (.assignOp op hv.space))

end Expr

/-! ## Derived expressions -/

/-- What holds of the lexemes that are read as a phrase. At the level of assignments nothing calls
for parentheses, and one level is taken. -/
def Phrase.Reprints : Phrase → Nat → List Lexeme → Expr → List Lexeme → Prop
  | .assignment, n, i, e, k => e.levels + 1 ≤ n ∧ LetterLang.Reprints i e.pieces k
  | phrase, n, i, e, k => e.ReprintsIn phrase.precedence n i k

section Phrases

variable {phrase : Phrase} {level : BinaryLevel} {n : Nat} {i k : List Lexeme} {e : Expr}

theorem Phrase.reprints_binary :
    (Phrase.binary level).Reprints n i e k ↔
      e.ReprintsIn (Phrase.binary level).precedence n i k :=
  Iff.rfl

theorem Phrase.reprints_operand :
    level.operand.Reprints n i e k ↔
      e.ReprintsIn (Phrase.binary level).precedence.tighter n i k := by
  cases level <;> exact Iff.rfl

theorem Phrase.Reprints.spelled (h : phrase.Reprints n i e k) (hs : Lexeme.AllSpelled i) :
    Lexeme.AllSpelled k := by
  cases phrase with
  | assignment => exact h.2.spelled hs
  | _ => exact (Expr.ReprintsIn.alone h).2.spelled hs

theorem Precedence.rank_le_tighter (p : Precedence) : p.rank ≤ p.tighter.rank := by
  cases p <;> decide

end Phrases

theorem Expr.isQuotable_of_not_mem {quote : Char} {body : List Char}
    (hq : quote = '"' ∨ quote = '\'') (h : quote ∉ body) :
    isQuotable (String.ofList body) = true := by
  rw [isQuotable, String.toList_ofList]
  rcases hq with rfl | rfl <;> simp [h]

/-- A literal is well-formed because its lexeme is spelled. -/
theorem DerivesLiteral.reprints {t : Lexeme} {e : Expr} {n : Nat} {k : List Lexeme}
    (h : DerivesLiteral t e) (hs : t.Spelled) :
    e.wellFormed = true ∧ e.ReprintsIn .member n (t :: k) k := by
  cases h with
  | @number text v hv hf =>
      obtain ⟨hne, hdigits⟩ := hs
      have hwhole := Binary64.isWhole_of_digits hne hdigits hv hf
      obtain ⟨-, -, hread⟩ := Binary64.ofText?_print hwhole
      refine ⟨hwhole, Expr.single_reprints rfl rfl rfl fun k => ?_⟩
      exact .lexeme rfl nofun nofun (.number hv hread) .nil
  | @string quote body =>
      obtain ⟨quote₁, body₁, hq, hbody, htext⟩ := hs
      rw [String.toList_ofList, List.cons_append, List.cons_append, List.cons.injEq] at htext
      obtain ⟨rfl, htext⟩ := htext
      obtain ⟨rfl, -⟩ := List.append_inj' htext rfl
      refine ⟨Expr.isQuotable_of_not_mem hq hbody, ?_⟩
      obtain ⟨quote', hq', -, htext'⟩ := Expr.stringText_eq (String.ofList body)
      rw [String.toList_ofList] at htext'
      have hpieces : (Expr.string (String.ofList body)).pieces =
          [.token .string (String.ofList (quote' :: body ++ [quote']))] := by
        rw [← htext', String.ofList_toList]
        rfl
      refine Expr.single_reprints hpieces rfl rfl fun k => ?_
      exact .lexeme rfl nofun nofun (.string hq hq') .nil
  | trueWord => exact ⟨rfl, Expr.single_reprints rfl rfl rfl fun _ => .keyword _ .nil⟩
  | falseWord => exact ⟨rfl, Expr.single_reprints rfl rfl rfl fun _ => .keyword _ .nil⟩
  | nullWord => exact ⟨rfl, Expr.single_reprints rfl rfl rfl fun _ => .keyword _ .nil⟩

mutual

/-- **Derived expressions are reprinted.** What is read as an expression is well-formed, and its
lexemes hold all that is printed of it. -/
theorem DerivesExpr.reprints {phrase : Phrase} {n : Nat} {i k : List Lexeme} {e : Expr} :
    DerivesExpr phrase n i e k → Lexeme.AllSpelled i →
      e.wellFormed = true ∧ phrase.Reprints n i e k
  | .plain h, hs => by
      obtain ⟨hwf, hr⟩ := h.reprints hs
      obtain ⟨hn, hr⟩ := hr.alone
      exact ⟨hwf, Nat.succ_le_succ hn, hr⟩
  | @DerivesExpr.assign _ _ _ _ op _ _ h h', hs => by
      obtain ⟨hwf, hr⟩ := h.reprints hs
      obtain ⟨hwf', hn', hr'⟩ := h'.reprints (hr.spelled hs).tail
      obtain ⟨hn, hr⟩ := Expr.assign_reprints op hr hn' hr'
      exact ⟨Bool.and_eq_true_iff.2 ⟨hwf, hwf'⟩, Nat.succ_le_succ hn, hr⟩
  | @DerivesExpr.assignMember _ _ _ _ op _ _ _ _ h h', hs => by
      obtain ⟨hwf, hr⟩ := h.reprints hs
      obtain ⟨hwf', hn', hr'⟩ := h'.reprints (hr.spelled hs).tail
      obtain ⟨hn, hr⟩ := Expr.assignMember_reprints op hr hn' hr'
      exact ⟨Bool.and_eq_true_iff.2 ⟨hwf, hwf'⟩, Nat.succ_le_succ hn, hr⟩
  | .operand h, hs => by
      obtain ⟨hwf, hr⟩ := h.reprints hs
      rw [Phrase.reprints_operand] at hr
      exact ⟨hwf, hr.looser (Precedence.rank_le_tighter _)⟩
  | @DerivesExpr.logical op _ _ _ _ _ _ h h', hs => by
      obtain ⟨hwf, hr⟩ := h.reprints hs
      obtain ⟨hwf', hr'⟩ := h'.reprints (hr.spelled hs).tail
      refine ⟨Bool.and_eq_true_iff.2 ⟨hwf, hwf'⟩, ?_⟩
      rw [Phrase.reprints_binary, op.precedence_level] at hr ⊢
      rw [Phrase.reprints_operand, op.precedence_level] at hr'
      exact Expr.logical_reprints op hr hr'
  | @DerivesExpr.binary op _ _ _ _ _ _ h h', hs => by
      obtain ⟨hwf, hr⟩ := h.reprints hs
      obtain ⟨hwf', hr'⟩ := h'.reprints (hr.spelled hs).tail
      refine ⟨Bool.and_eq_true_iff.2 ⟨hwf, hwf'⟩, ?_⟩
      rw [Phrase.reprints_binary, op.precedence_level] at hr ⊢
      rw [Phrase.reprints_operand, op.precedence_level] at hr'
      exact Expr.binary_reprints op hr hr'
  | @DerivesExpr.unary op _ _ _ _ h, hs => by
      obtain ⟨hwf, hr⟩ := h.reprints hs.tail
      exact ⟨hwf, Expr.unary_reprints op hr⟩
  | .leftHandSide h, hs => by
      obtain ⟨hwf, hr⟩ := h.reprints hs
      exact ⟨hwf, hr.looser (by decide)⟩
  | .uncalled h, hs => by
      obtain ⟨hwf, hr⟩ := h.reprints hs
      exact ⟨hwf, hr.looser (by decide)⟩
  | .superCall h, hs => by
      obtain ⟨hwf, hr⟩ := h.reprints hs.tail
      exact ⟨hwf, Expr.call_reprints Expr.super_reprints hr⟩
  | .call h h', hs => by
      obtain ⟨hwf, hr⟩ := h.reprints hs
      obtain ⟨hwf', hr'⟩ := h'.reprints (hr.spelled hs)
      refine ⟨?_, Expr.call_reprints hr hr'⟩
      rw [Expr.wellFormed, Bool.and_eq_true, Bool.or_eq_true]
      exact ⟨.inr hwf, hwf'⟩
  | .primary h, hs => h.reprints hs
  | @DerivesExpr.dot _ _ _ name _ h, hs => by
      obtain ⟨hwf, hr⟩ := h.reprints hs
      have hname : Lexeme.isName name = true := (hr.spelled hs).tail _ List.mem_cons_self
      refine ⟨?_, Expr.dot_reprints hr⟩
      simp only [Expr.wellFormed, Bool.and_eq_true]
      exact ⟨⟨hwf, hname⟩, rfl⟩
  | .index h h', hs => by
      obtain ⟨hwf, hr⟩ := h.reprints hs
      obtain ⟨hwf', hn', hr'⟩ := h'.reprints (hr.spelled hs).tail
      refine ⟨?_, Expr.index_reprints hr hn' hr'⟩
      simp only [Expr.wellFormed, Bool.and_eq_true]
      exact ⟨⟨hwf, hwf'⟩, rfl⟩
  | .literal h, hs => h.reprints (hs _ List.mem_cons_self)
  | .name, hs =>
      ⟨hs _ List.mem_cons_self, Expr.single_reprints rfl rfl rfl fun _ => .identifier _ .nil⟩
  | .this, _ => ⟨rfl, Expr.single_reprints rfl rfl rfl fun _ => .keyword _ .nil⟩
  | .parenthesized h, hs => by
      obtain ⟨hwf, hn, hr⟩ := h.reprints hs.tail
      exact ⟨hwf, .inr ⟨_, rfl, hn, hr⟩⟩
  | .new h h', hs => by
      obtain ⟨hwf, hr⟩ := h.reprints hs.tail
      obtain ⟨hwf', hr'⟩ := h'.reprints (hr.spelled hs.tail)
      exact ⟨Bool.and_eq_true_iff.2 ⟨hwf, hwf'⟩, Expr.new_reprints hr hr'⟩

theorem DerivesArguments.reprints {n : Nat} {i k : List Lexeme} {es : List Expr} :
    DerivesArguments n i es k → Lexeme.AllSpelled i →
      Expr.listWellFormed es = true ∧ Expr.ArgumentsReprint n i es k
  | .none, _ => ⟨rfl, Nat.zero_le _, Reprints.parenthesized .nil⟩
  | .some h, hs => by
      obtain ⟨hwf, hn, -, hr⟩ := h.reprints hs.tail
      exact ⟨hwf, hn, hr.parenthesized⟩

theorem DerivesArgumentList.reprints {n : Nat} {i k : List Lexeme} {es : List Expr} :
    DerivesArgumentList n i es k → Lexeme.AllSpelled i →
      Expr.listWellFormed es = true ∧ Expr.listLevels es ≤ n ∧ Expr.listPieces es ≠ [] ∧
        Reprints i (Piece.separated (Expr.listPieces es)) k
  | .one h, hs => by
      obtain ⟨hwf, hn, hr⟩ := h.reprints hs
      exact ⟨Bool.and_eq_true_iff.2 ⟨hwf, rfl⟩, Nat.max_le.2 ⟨hn, Nat.zero_le _⟩, nofun, hr⟩
  | .more h h', hs => by
      obtain ⟨hwf, hn, hr⟩ := h.reprints hs
      obtain ⟨hwf', hn', hne, hr'⟩ := h'.reprints (hr.spelled hs).tail
      exact ⟨Bool.and_eq_true_iff.2 ⟨hwf, hwf'⟩, Nat.max_le.2 ⟨hn, hn'⟩, nofun,
        hr.separated hne hr'⟩

end

/-! ## Derived parts of statements -/

theorem CommaSeparated.reprints {α : Type} {item : List Lexeme → α → List Lexeme → Prop}
    {good : α → Prop} {pieces : α → List Piece} {i k : List Lexeme} {as : List α}
    (h : CommaSeparated item i as k) (hs : Lexeme.AllSpelled i)
    (hitem : ∀ i a k, item i a k → Lexeme.AllSpelled i → good a ∧ Reprints i (pieces a) k) :
    as ≠ [] ∧ (∀ a ∈ as, good a) ∧ Reprints i (Piece.separated (as.map pieces)) k := by
  induction h with
  | one h =>
      obtain ⟨hgood, hr⟩ := hitem _ _ _ h hs
      exact ⟨nofun, by simpa using hgood, hr⟩
  | @more _ _ _ as _ h _ ih =>
      obtain ⟨hgood, hr⟩ := hitem _ _ _ h hs
      obtain ⟨hne, hgood', hr'⟩ := ih (hr.spelled hs).tail
      have hne' : as.map pieces ≠ [] := mt List.map_eq_nil_iff.1 hne
      refine ⟨nofun, ?_, hr.separated hne' hr'⟩
      rintro a (_ | ⟨_, ha⟩)
      · exact hgood
      · exact hgood' a ha

section Parts

variable {n : Nat} {i k : List Lexeme}

theorem DerivesOption.reprints {e : Option Expr} (h : DerivesOption n i e k)
    (hs : Lexeme.AllSpelled i) :
    Expr.optionWellFormed e = true ∧ Expr.optionLevels e ≤ n ∧
      Reprints i (Expr.optionPieces e) k := by
  cases h with
  | none => exact ⟨rfl, Nat.zero_le n, .nil⟩
  | some h => exact h.reprints hs

theorem DerivesDeclaration.reprints {d : Declaration} (h : DerivesDeclaration n i d k)
    (hs : Lexeme.AllSpelled i) :
    (d.wellFormed = true ∧ Expr.optionLevels d.init ≤ n) ∧ Reprints i d.pieces k := by
  have hname : ∀ {name j}, Lexeme.AllSpelled (identifier name :: j) →
      Lexeme.isName name = true := fun hs => hs _ List.mem_cons_self
  cases h with
  | bare =>
      refine ⟨⟨?_, Nat.zero_le n⟩, .identifier _ .nil⟩
      exact Bool.and_eq_true_iff.2 ⟨hname hs, rfl⟩
  | initialized h =>
      obtain ⟨hwf, hn, hr⟩ := h.reprints hs.tail.tail
      refine ⟨⟨?_, hn⟩, .identifier _ (.space (.assignOp .assign hr.space))⟩
      exact Bool.and_eq_true_iff.2 ⟨hname hs, hwf⟩

theorem Declaration.listLevels_le {ds : List Declaration}
    (h : ∀ d ∈ ds, Expr.optionLevels d.init ≤ n) : listLevels ds ≤ n := by
  induction ds with
  | nil => exact Nat.zero_le n
  | cons d ds ih =>
      rw [listLevels]
      apply Nat.max_le.2
      exact ⟨h d List.mem_cons_self, ih fun d' hd' => h d' (List.mem_cons_of_mem d hd')⟩

theorem DerivesDeclarations.reprints {ds : List Declaration} (h : DerivesDeclarations n i ds k)
    (hs : Lexeme.AllSpelled i) :
    Declaration.listWellFormed ds = true ∧ Declaration.listLevels ds ≤ n ∧
      Reprints i (Declaration.listPieces ds) k := by
  obtain ⟨h⟩ := h
  obtain ⟨hne, hgood, hr⟩ := h.reprints hs.tail fun _ _ _ => DerivesDeclaration.reprints
  refine ⟨?_, ?_, .keyword _ hr.space⟩
  · simp only [Declaration.listWellFormed, Bool.and_eq_true, Bool.not_eq_true',
      List.isEmpty_eq_false_iff, List.all_eq_true]
    exact ⟨hne, fun d hd => (hgood d hd).1⟩
  · exact Declaration.listLevels_le fun d hd => (hgood d hd).2

theorem DerivesForInit.reprints {init : Option ForInit} (h : DerivesForInit n i init k)
    (hs : Lexeme.AllSpelled i) :
    init.all ForInit.wellFormed = true ∧ ForInit.optionLevels init ≤ n ∧
      Reprints i ((init.map ForInit.pieces).getD []) k := by
  cases h with
  | none => exact ⟨rfl, Nat.zero_le n, .nil⟩
  | declarations h => exact h.reprints hs
  | expression h => exact h.reprints hs

theorem DerivesName.reprints {name : String} (h : DerivesName i name k)
    (hs : Lexeme.AllSpelled i) :
    Lexeme.isName name = true ∧ Reprints i [Piece.identifier name] k := by
  cases h
  exact ⟨hs _ List.mem_cons_self, .identifier name .nil⟩

theorem DerivesParameters.reprints {params : List String} (h : DerivesParameters i params k)
    (hs : Lexeme.AllSpelled i) :
    params.all Lexeme.isName = true ∧
      Reprints i (Piece.separated (params.map fun p => [Piece.identifier p])) k := by
  cases h with
  | none => exact ⟨rfl, .nil⟩
  | some h =>
      obtain ⟨-, hgood, hr⟩ := h.reprints hs fun _ _ _ => DerivesName.reprints
      exact ⟨List.all_eq_true.2 hgood, hr⟩

theorem Reprints.head {j : List Lexeme} {test : Expr} (w : Keyword)
    (h : Reprints i test.pieces (Lexeme.delimiter .closeParen :: j)) :
    Reprints (Lexeme.keyword w :: Lexeme.delimiter .openParen :: i) (test.headPieces w) j :=
  .keyword w (.space h.parenthesized)

end Parts

/-! ## Derived statements -/

/-- An open `if` at the end of a statement takes every `else` that follows. -/
theorem DerivesStatement.not_else {n : Nat} {i k : List Lexeme} {s : Statement} :
    DerivesStatement n i s k → s.endsOpen = true → Lexeme.firstKind k ≠ .keyword .elseWord
  | .ifThen _ _ hk, _ => hk
  | .ifElse _ _ h, hopen => h.not_else hopen
  | .whileLoop _ h, hopen => h.not_else hopen
  | .forLoop _ _ _ h, hopen => h.not_else hopen

mutual

/-- **Derived statements are reprinted**, whatever the blanks between the lexemes. -/
theorem DerivesStatement.reprints (options : PrintOptions) {n : Nat} {i k : List Lexeme}
    {s : Statement} : DerivesStatement n i s k → Lexeme.AllSpelled i →
      s.wellFormed = true ∧ s.levels ≤ n ∧ ∀ level, Reprints i (s.pieces options level) k
  | .empty, _ => ⟨rfl, Nat.succ_le_succ (Nat.zero_le _), fun _ => .semicolon .nil⟩
  | .expression h, hs => by
      obtain ⟨hwf, hn, hr⟩ := h.reprints hs
      refine ⟨hwf, Nat.succ_le_succ hn, fun level => ?_⟩
      rw [Statement.pieces]
      exact hr.append (.semicolon .nil)
  | .block h, hs => by
      obtain ⟨hwf, hn, hr⟩ := h.reprints options hs
      exact ⟨hwf, Nat.succ_le_succ hn, hr⟩
  | .variable h, hs => by
      obtain ⟨hwf, hn, hr⟩ := h.reprints hs
      refine ⟨hwf, Nat.succ_le_succ hn, fun level => ?_⟩
      rw [Statement.pieces]
      exact hr.append (.semicolon .nil)
  | .ifThen ht h _, hs => by
      obtain ⟨hwf, hn, hr⟩ := ht.reprints hs.tail.tail
      obtain ⟨hwf', hn', hr'⟩ := h.reprints options (hr.spelled hs.tail.tail).tail
      refine ⟨Bool.and_eq_true_iff.2 ⟨hwf, hwf'⟩, Nat.succ_le_succ (Nat.max_le.2 ⟨hn, hn'⟩),
        fun level => ?_⟩
      rw [Statement.pieces]
      exact (hr.head .ifWord).append (hr' level).space
  | .ifElse ht h h', hs => by
      -- An `else` follows the consequent, so that no `if` at its end is open.
      have hclosed := mt h.not_else (not_not_intro rfl)
      obtain ⟨hwf, hn, hr⟩ := ht.reprints hs.tail.tail
      have hs' := (hr.spelled hs.tail.tail).tail
      obtain ⟨hwf', hn', hr'⟩ := h.reprints options hs'
      obtain ⟨hwf'', hn'', hr''⟩ := h'.reprints options ((hr' 0).spelled hs').tail
      refine ⟨?_, ?_, fun level => ?_⟩
      · simp only [Statement.wellFormed, Bool.and_eq_true, Bool.not_eq_true']
        exact ⟨⟨⟨hwf, hwf'⟩, Bool.eq_false_iff.2 hclosed⟩, hwf''⟩
      · exact Nat.succ_le_succ (Nat.max_le.2 ⟨Nat.max_le.2 ⟨hn, hn'⟩, hn''⟩)
      · have helse := (hr' level).append (.space (.keyword .elseWord (hr'' level).space))
        rw [Statement.pieces, List.append_assoc, List.append_assoc]
        exact (hr.head .ifWord).append helse.space
  | .whileLoop ht h, hs => by
      obtain ⟨hwf, hn, hr⟩ := ht.reprints hs.tail.tail
      obtain ⟨hwf', hn', hr'⟩ := h.reprints options (hr.spelled hs.tail.tail).tail
      refine ⟨Bool.and_eq_true_iff.2 ⟨hwf, hwf'⟩, Nat.succ_le_succ (Nat.max_le.2 ⟨hn, hn'⟩),
        fun level => ?_⟩
      rw [Statement.pieces]
      exact (hr.head .whileWord).append (hr' level).space
  | .doWhile h ht, hs => by
      obtain ⟨hwf, hn, hr⟩ := h.reprints options hs.tail
      obtain ⟨hwf', hn', hr'⟩ := ht.reprints ((hr 0).spelled hs.tail).tail.tail
      refine ⟨Bool.and_eq_true_iff.2 ⟨hwf, hwf'⟩, Nat.succ_le_succ (Nat.max_le.2 ⟨hn, hn'⟩),
        fun level => ?_⟩
      have htest := (hr'.head .whileWord).append (.semicolon .nil)
      rw [Statement.pieces, List.append_assoc]
      exact .keyword .doWord (.space ((hr level).append htest.space))
  | .forLoop hinit htest hupdate h, hs => by
      obtain ⟨hwf, hn, hr⟩ := hinit.reprints hs.tail.tail
      have hs₁ := (hr.spelled hs.tail.tail).tail
      obtain ⟨hwf₁, hn₁, hr₁⟩ := htest.reprints hs₁
      have hs₂ := (hr₁.spelled hs₁).tail
      obtain ⟨hwf₂, hn₂, hr₂⟩ := hupdate.reprints hs₂
      obtain ⟨hwf₃, hn₃, hr₃⟩ := h.reprints options (hr₂.spelled hs₂).tail
      refine ⟨?_, ?_, fun level => ?_⟩
      · simp only [Statement.wellFormed, Bool.and_eq_true]
        exact ⟨⟨⟨hwf, hwf₁⟩, hwf₂⟩, hwf₃⟩
      · exact Nat.succ_le_succ (Nat.max_le.2 ⟨Nat.max_le.2 ⟨hn, hn₁⟩, Nat.max_le.2 ⟨hn₂, hn₃⟩⟩)
      · have hheader := (hr.append hr₁.semicolon).append hr₂.semicolon
        rw [Statement.pieces, List.append_assoc]
        exact .keyword .forWord (.space (hheader.parenthesized.append (hr₃ level).space))
  | @DerivesStatement.function _ name _ _ _ _ _ hparams h, hs => by
      have hname : Lexeme.isName name = true := hs.tail _ List.mem_cons_self
      obtain ⟨hwf, hr⟩ := hparams.reprints hs.tail.tail.tail
      obtain ⟨hwf', hn', hr'⟩ := h.reprints options (hr.spelled hs.tail.tail.tail).tail
      refine ⟨?_, Nat.succ_le_succ hn', fun level => ?_⟩
      · simp only [Statement.wellFormed, Bool.and_eq_true]
        exact ⟨⟨hname, hwf⟩, hwf'⟩
      · rw [Statement.pieces, List.append_assoc]
        exact .keyword .defWord (.space (.identifier name
          (hr.parenthesized.append (hr' level).space)))
  | .return h, hs => by
      obtain ⟨hwf, hn, hr⟩ := h.reprints hs.tail
      refine ⟨hwf, Nat.succ_le_succ hn, fun level => ?_⟩
      rw [Statement.pieces]
      exact .keyword .returnWord (hr.append (.semicolon .nil))
  | @DerivesStatement.class _ name _ _ _ _ _ .none h, hs => by
      have hname : Lexeme.isName name = true := hs.tail _ List.mem_cons_self
      obtain ⟨hwf, hn, hr⟩ := h.reprints options hs.tail.tail
      refine ⟨?_, Nat.succ_le_succ hn, fun level => ?_⟩
      · simp only [Statement.wellFormed, Bool.and_eq_true]
        exact ⟨⟨hname, rfl⟩, hwf⟩
      · exact .keyword .classWord (.space (.identifier name (.space (hr level))))
  | @DerivesStatement.class _ name _ _ _ _ _ (@DerivesSuperclass.some parent _) h, hs => by
      have hname : Lexeme.isName name = true := hs.tail _ List.mem_cons_self
      have hparent : Lexeme.isName parent = true := hs.tail.tail.tail _ List.mem_cons_self
      obtain ⟨hwf, hn, hr⟩ := h.reprints options hs.tail.tail.tail.tail
      refine ⟨?_, Nat.succ_le_succ hn, fun level => ?_⟩
      · simp only [Statement.wellFormed, Bool.and_eq_true]
        exact ⟨⟨hname, hparent⟩, hwf⟩
      · have hextends := Reprints.keyword .extendsWord
          (.space (.identifier parent (.space (hr level))))
        exact .keyword .classWord (.space (.identifier name hextends.space))

theorem DerivesBlock.reprints (options : PrintOptions) {n : Nat} {i k : List Lexeme}
    {ss : List Statement} : DerivesBlock n i ss k → Lexeme.AllSpelled i →
      Statement.listWellFormed ss = true ∧ Statement.listLevels ss ≤ n ∧ ∀ level,
        Reprints i (options.block level (Statement.linesPieces options (level + 1) ss)) k
  | .mk h, hs => by
      obtain ⟨hwf, hn, hr⟩ := h.reprints options hs.tail
      exact ⟨hwf, hn, fun level => (hr (level + 1)).block options level⟩

theorem DerivesStatements.reprints (options : PrintOptions) {n : Nat} {i k : List Lexeme}
    {ss : List Statement} : DerivesStatements n i ss k → Lexeme.AllSpelled i →
      Statement.listWellFormed ss = true ∧ Statement.listLevels ss ≤ n ∧
        ∀ level, Reprints i (Statement.linesPieces options level ss) k
  | .nil, _ => ⟨rfl, Nat.zero_le _, fun _ => .nil⟩
  | .cons h h', hs => by
      obtain ⟨hwf, hn, hr⟩ := h.reprints options hs
      obtain ⟨hwf', hn', hr'⟩ := h'.reprints options ((hr 0).spelled hs)
      refine ⟨Bool.and_eq_true_iff.2 ⟨hwf, hwf'⟩, Nat.max_le.2 ⟨hn, hn'⟩, fun level => ?_⟩
      rw [Statement.linesPieces]
      exact .line options level ((hr level).append (hr' level))

end

/-- **Derived programs are reprinted.** The lexemes of a source hold all that is printed of its
program, which is well-formed and needs no more levels than it was derived within. -/
theorem DerivesProgram.reprinted {n : Nat} {ts : List Lexeme} {p : Program}
    (h : DerivesProgram n ts p) (hs : Lexeme.AllSpelled ts) (options : PrintOptions) :
    p.wellFormed = true ∧ p.levels ≤ n ∧ Reprinted ts (Piece.lexemes (p.pieces options)) := by
  obtain ⟨hwf, hn, hr⟩ := DerivesStatements.reprints options h hs
  obtain ⟨used, hts, hused⟩ := hr 0
  rw [List.append_nil] at hts
  rw [hts, p.lexemes_pieces]
  exact ⟨hwf, hn, hused⟩

end LetterLang

import LetterLang.Proofs.LexemeText
import LetterLang.Proofs.Printed

/-!
# Printed texts are scanned back

The text of a printed tree scans as the lexemes that were printed: no two of them run together,
whatever blanks the options put at the ends of lines, and be they none.

- `Piece.Reads ps rest`: with `rest` after them, the pieces are scanned as the tokens that they are.
- `Piece.Open ps`: so before everything that no word runs on into. Expressions are open.
- `Piece.Closed ps`: so before every text. Statements are closed, since they end in a delimiter.
-/

namespace LetterLang

open Text (Separates)

namespace Piece

def chars (ps : List Piece) : List Char :=
  ps.flatMap fun p => p.text.toList

section

variable (ps qs : List Piece)

@[simp] theorem chars_nil : chars [] = [] := rfl

@[simp] theorem chars_append : chars (ps ++ qs) = chars ps ++ chars qs :=
  List.flatMap_append

@[simp] theorem chars_token (kind : TokenKind) (text : String) :
    chars (.token kind text :: ps) = text.toList ++ chars ps := rfl

@[simp] theorem chars_blank (text : String) :
    chars (.blank text :: ps) = text.toList ++ chars ps := rfl

@[simp] theorem chars_space : chars (space :: ps) = ' ' :: chars ps := rfl

@[simp] theorem chars_delimiter (d : Delimiter) :
    chars (delimiter d :: ps) = d.char :: chars ps := by
  cases d <;> rfl

end

end Piece

theorem Text.separates_space (rest : List Char) : Separates (' ' :: rest) := by
  intro c hc
  cases hc
  decide

theorem Text.separates_delimiter (d : Delimiter) (rest : List Char) :
    Separates (d.char :: rest) := by
  intro c hc
  cases hc
  cases d <;> decide

namespace Piece

/-! ## Pieces that are read back -/

/-- With `rest` after them, the pieces are scanned as the tokens that they are. -/
def Reads (ps : List Piece) (rest : List Char) : Prop :=
  ∀ ls, Scans rest ls → Scans (chars ps ++ rest) (lexemes ps ++ ls)

variable {ps qs : List Piece} {rest : List Char}

theorem Reads.nil : Reads [] rest :=
  fun _ h => h

theorem Reads.append (h : Reads ps (chars qs ++ rest)) (h' : Reads qs rest) :
    Reads (ps ++ qs) rest := by
  intro ls hls
  rw [chars_append, lexemes_append, List.append_assoc, List.append_assoc]
  exact h _ (h' ls hls)

theorem Reads.token {kind : TokenKind} {text : String} (hs : Lexeme.Spelled (kind, text))
    (hstop : Lexeme.Stops (kind, text) (chars ps ++ rest)) (h : Reads ps rest) :
    Reads (.token kind text :: ps) rest := by
  intro ls hls
  rw [chars_token, lexemes_token, List.append_assoc]
  exact Scans.lexeme hs hstop (h ls hls)

theorem Reads.blank {text : String} (hb : ∀ c ∈ text.toList, Text.isBlank c = true)
    (h : Reads ps rest) : Reads (.blank text :: ps) rest := by
  intro ls hls
  rw [chars_blank, lexemes_blank, List.append_assoc]
  exact Scans.blanks hb (h ls hls)

theorem Reads.space (h : Reads ps rest) : Reads (space :: ps) rest :=
  .blank (fun c hc => by rw [List.mem_singleton.1 (hc : c ∈ [' '])]; decide) h

theorem Reads.delimiter (d : Delimiter) (h : Reads ps rest) : Reads (delimiter d :: ps) rest :=
  .token rfl (fun _ _ => rfl) h

/-- The pieces are read back before every text that no word runs on into. -/
def Open (ps : List Piece) : Prop :=
  ∀ rest, Separates rest → Reads ps rest

/-- The pieces are read back before every text. -/
def Closed (ps : List Piece) : Prop :=
  ∀ rest, Reads ps rest

theorem Open.token {kind : TokenKind} {text : String} (hs : Lexeme.Spelled (kind, text)) :
    Open [.token kind text] :=
  fun _ hrest => .token hs (hrest.stops _) .nil

theorem Closed.nil : Closed [] :=
  fun _ => .nil

theorem Closed.append (h : Closed ps) (h' : Closed qs) : Closed (ps ++ qs) :=
  fun rest => .append (h _) (h' rest)

theorem Closed.open (h : Closed ps) : Open ps :=
  fun rest _ => h rest

theorem Closed.append_open (h : Closed ps) (h' : Open qs) : Open (ps ++ qs) :=
  fun rest hrest => .append (h _) (h' rest hrest)

theorem Closed.space (h : Closed ps) : Closed (space :: ps) :=
  fun rest => .space (h rest)

theorem Closed.delimiter (d : Delimiter) (h : Closed ps) : Closed (delimiter d :: ps) :=
  fun rest => .delimiter d (h rest)

theorem Open.delimiter (h : Open ps) (d : Delimiter) (h' : Closed qs) :
    Closed (ps ++ Piece.delimiter d :: qs) := by
  refine fun rest => .append (h _ ?_) (.delimiter d (h' rest))
  rw [chars_delimiter]
  exact Text.separates_delimiter d _

theorem Open.space (h : Open ps) (h' : Closed qs) : Closed (ps ++ Piece.space :: qs) := by
  refine fun rest => .append (h _ ?_) (.space (h' rest))
  rw [chars_space]
  exact Text.separates_space _

theorem Open.delimiter_open (h : Open ps) (d : Delimiter) (h' : Open qs) :
    Open (ps ++ Piece.delimiter d :: qs) := by
  have hd := (h.delimiter d .nil).append_open h'
  rw [List.append_assoc] at hd
  exact hd

theorem Open.operator {kind : TokenKind} {text : String} (h : Open ps)
    (hs : Lexeme.Spelled (kind, text)) (h' : Open qs) :
    Open (ps ++ [Piece.space, .token kind text, Piece.space] ++ qs) :=
  Closed.append_open (h.space ((Open.token hs).space .nil)) h'

theorem Closed.parenthesized (h : Open ps) : Closed (parenthesized ps) :=
  Closed.delimiter .openParen (h.delimiter .closeParen .nil)

theorem Open.parenthesized {rs : List Piece} (h : Open ps) (h' : Open qs) (hrs : Closed rs) :
    Closed (ps ++ (Piece.parenthesized qs ++ rs)) := by
  have hparens := h.delimiter .openParen (h'.delimiter .closeParen hrs)
  rw [Piece.parenthesized, List.cons_append, List.cons_append, List.append_assoc]
  exact hparens

theorem open_separated {pss : List (List Piece)} (h : ∀ ps ∈ pss, Open ps) :
    Open (separated pss) := by
  induction pss with
  | nil => exact Closed.nil.open
  | cons ps pss ih =>
      have hps := h ps List.mem_cons_self
      have hrest := ih fun qs hqs => h qs (List.mem_cons_of_mem _ hqs)
      cases pss with
      | nil => exact hps
      | cons qs pss => exact Closed.append_open (hps.delimiter .comma (Closed.space .nil)) hrest

/-! ## Pieces of expressions

An operator before an expression must not run on into it, so no expression starts with `=`. -/

/-- The pieces are open, and do not start as the end of an operator would. -/
structure Operand (ps : List Piece) : Prop where
  reads : Open ps
  starts : ∃ c cs, chars ps = c :: cs ∧ c ≠ '='

namespace Operand

theorem token {kind : TokenKind} {text : String} {c : Char} {cs : List Char}
    (hs : Lexeme.Spelled (kind, text)) (ht : text.toList = c :: cs) (hc : c ≠ '=') :
    Operand [.token kind text] where
  reads := .token hs
  starts := ⟨c, cs, by rw [chars_token, ht, chars_nil, List.append_nil], hc⟩

theorem append (h : Operand ps) (h' : Open (ps ++ qs)) : Operand (ps ++ qs) where
  reads := h'
  starts := by
    obtain ⟨c, cs, hcs, hc⟩ := h.starts
    exact ⟨c, cs ++ chars qs, by rw [chars_append, hcs, List.cons_append], hc⟩

theorem parenthesized (h : Operand ps) : Operand (parenthesized ps) where
  reads := (Closed.parenthesized h.reads).open
  starts := ⟨'(', chars (ps ++ [delimiter .closeParen]), chars_delimiter _ _, by decide⟩

theorem guardedBy {e : Expr} (min : Precedence) (h : Operand e.pieces) :
    Operand (e.guardedBy min e.pieces) := by
  unfold Expr.guardedBy
  split
  · exact h.parenthesized
  · exact h

theorem unary (op : UnaryOp) (h : Operand ps) : Operand (op.piece :: ps) where
  reads := by
    intro rest hrest
    obtain ⟨c, cs, hcs, hc⟩ := h.starts
    cases op <;>
    · refine Reads.token ?_ ?_ (h.reads rest hrest)
      · simp [UnaryOp.symbol]
      · intro d hd
        rw [hcs] at hd
        cases hd
        simp [Lexeme.extendedBy, hc]
  starts := by
    cases op
    · exact ⟨'+', chars ps, rfl, by decide⟩
    · exact ⟨'-', chars ps, rfl, by decide⟩
    · exact ⟨'!', chars ps, rfl, by decide⟩

theorem operator {kind : TokenKind} {text : String} (h : Operand ps)
    (hs : Lexeme.Spelled (kind, text)) (h' : Operand qs) :
    Operand (ps ++ [space, .token kind text, space] ++ qs) := by
  have hopen := h.reads.operator hs h'.reads
  rw [List.append_assoc] at hopen ⊢
  exact h.append hopen

theorem access (h : Operand ps) (computed : Bool) (h' : Operand qs) :
    Operand (ps ++ access computed qs) := by
  refine h.append ?_
  cases computed with
  | true =>
      have hbracket := h'.reads.delimiter .closeBracket .nil
      exact (h.reads.delimiter .openBracket hbracket).open
  | false => exact h.reads.delimiter_open .dot h'.reads

theorem arguments (h : Operand ps) {pss : List (List Piece)} (hs : ∀ qs ∈ pss, Operand qs) :
    Operand (ps ++ Piece.parenthesized (separated pss)) := by
  refine h.append ?_
  have hopen : Open (separated pss) := open_separated fun qs hqs => (hs qs hqs).reads
  exact (h.reads.delimiter .openParen (hopen.delimiter .closeParen .nil)).open

end Operand

end Piece

/-! ## Expressions -/

theorem AssignOp.spelled (op : AssignOp) : op.lexeme.Spelled := by
  cases op <;> simp [AssignOp.lexeme, AssignOp.symbol]

theorem LogicalOp.spelled (op : LogicalOp) : op.lexeme.Spelled := by
  cases op <;> simp [LogicalOp.lexeme, LogicalOp.level, BinaryLevel.kind, LogicalOp.symbol]

theorem BinaryOp.spelled (op : BinaryOp) : op.lexeme.Spelled := by
  cases op <;> simp [BinaryOp.lexeme, BinaryOp.level, BinaryLevel.kind, BinaryOp.symbol]

theorem LogicalOp.piece_eq (op : LogicalOp) : op.piece = .token op.lexeme.1 op.lexeme.2 := by
  cases op <;> rfl

theorem BinaryOp.piece_eq (op : BinaryOp) : op.piece = .token op.lexeme.1 op.lexeme.2 := by
  cases op <;> rfl

namespace Expr

open Piece

theorem keyword_operand (w : Keyword) : Operand [.keyword w] := by
  obtain ⟨c, hc, -⟩ := (Option.any_eq_true _ _).1 w.head?_text
  obtain ⟨cs, hcs⟩ := List.head?_eq_some_iff.1 hc
  refine .token (show Lexeme.Spelled (.keyword w, w.text) from rfl) hcs ?_
  rintro rfl
  exact absurd (w.isWord_text _ (List.mem_of_mem_head? hc)) (by decide)

theorem keyword_space_operand (w : Keyword) {ps : List Piece} (h : Operand ps) :
    Operand (.keyword w :: .space :: ps) := by
  have hopen := Closed.append_open ((keyword_operand w).reads.space .nil) h.reads
  rw [List.append_assoc] at hopen
  exact (keyword_operand w).append hopen

theorem identifier_operand {name : String} (h : Lexeme.isName name = true) :
    Operand [.identifier name] := by
  obtain ⟨⟨c, cs, hcs, -⟩, hw, -⟩ := Lexeme.isName_chars h
  refine .token (show Lexeme.Spelled (.identifier, name) from h) hcs ?_
  rintro rfl
  exact absurd (hw '=' (by simp [hcs])) (by decide)

theorem number_operand {value : Binary64} (h : value.isWhole = true) :
    Operand [.token .number value.print] := by
  obtain ⟨hne, hd, -⟩ := Binary64.ofText?_print h
  obtain ⟨c, cs, hcs⟩ := List.exists_cons_of_ne_nil hne
  refine .token (show Lexeme.Spelled (.number, value.print) from ⟨hne, hd⟩) hcs ?_
  rintro rfl
  exact absurd (hd '=' (by simp [hcs])) (by decide)

theorem string_operand {value : String} (h : isQuotable value = true) :
    Operand [.token .string (stringText value)] := by
  obtain ⟨quote, hq, hnot, htext⟩ := stringText_eq value
  have hs : Lexeme.Spelled (.string, stringText value) :=
    ⟨quote, value.toList, hq, hnot h, htext⟩
  exact .token hs htext (by rcases hq with rfl | rfl <;> decide)

end Expr

mutual

/-- **Printed expressions are read back.** -/
theorem Expr.operand : (e : Expr) → e.wellFormed = true → Piece.Operand e.pieces
  | .identifier _, h => identifier_operand h
  | .number _, h => number_operand h
  | .string _, h => string_operand h
  | .boolean true, _ => keyword_operand .trueWord
  | .boolean false, _ => keyword_operand .falseWord
  | .null, _ => keyword_operand .nullWord
  | .this, _ => keyword_operand .thisWord
  | .super, h => nomatch h
  | .assign op name value, h => by
      rw [Expr.wellFormed, Bool.and_eq_true] at h
      have hvalue := (value.operand h.2).guardedBy .assignment
      exact (identifier_operand h.1).operator op.spelled hvalue
  | .assignMember op object property computed value, h => by
      simp only [Expr.wellFormed, Bool.and_eq_true] at h
      have hobject := (object.operand h.1.1.1).guardedBy .member
      have hvalue := (value.operand h.2).guardedBy .assignment
      exact (hobject.access computed (property.operand h.1.1.2)).operator op.spelled hvalue
  | .logical op left right, h => by
      rw [Expr.wellFormed, Bool.and_eq_true] at h
      have hleft := (left.operand h.1).guardedBy op.precedence
      have hright := (right.operand h.2).guardedBy op.precedence.tighter
      rw [Expr.pieces, op.piece_eq]
      exact hleft.operator op.spelled hright
  | .binary op left right, h => by
      rw [Expr.wellFormed, Bool.and_eq_true] at h
      have hleft := (left.operand h.1).guardedBy op.precedence
      have hright := (right.operand h.2).guardedBy op.precedence.tighter
      rw [Expr.pieces, op.piece_eq]
      exact hleft.operator op.spelled hright
  | .unary op argument, h => by
      rw [Expr.wellFormed] at h
      rw [Expr.pieces]
      exact ((argument.operand h).guardedBy .unary).unary op
  | .member object property computed, h => by
      simp only [Expr.wellFormed, Bool.and_eq_true] at h
      rw [Expr.pieces]
      exact ((object.operand h.1.1).guardedBy .member).access computed (property.operand h.1.2)
  | .call callee arguments, h => by
      rw [Expr.wellFormed, Bool.and_eq_true, Bool.or_eq_true] at h
      have hcallee : Piece.Operand callee.pieces := by
        rcases h.1 with hsuper | hcallee
        · cases callee with
          | super => exact keyword_operand .superWord
          | _ => cases hsuper
        · exact callee.operand hcallee
      rw [Expr.pieces]
      exact (hcallee.guardedBy .call).arguments (Expr.listOperand arguments h.2)
  | .new callee arguments, h => by
      rw [Expr.wellFormed, Bool.and_eq_true] at h
      have hcallee := (callee.operand h.1).guardedBy .member
      have hcall := hcallee.arguments (Expr.listOperand arguments h.2)
      rw [Expr.pieces, List.append_assoc]
      exact keyword_space_operand .newWord hcall

theorem Expr.listOperand : (es : List Expr) → Expr.listWellFormed es = true →
    ∀ ps ∈ Expr.listPieces es, Piece.Operand ps
  | [], _ => by simp [Expr.listPieces]
  | e :: es, h => by
      rw [Expr.listWellFormed, Bool.and_eq_true] at h
      have he := e.operand h.1
      intro ps hps
      rw [Expr.listPieces] at hps
      rcases List.mem_cons.1 hps with rfl | hps
      · exact he
      · exact Expr.listOperand es h.2 ps hps

end

/-! ## Parts of statements -/

section Parts

open Piece

theorem Piece.Closed.keyword_space (w : Keyword) {ps : List Piece} (h : Closed ps) :
    Closed (.keyword w :: .space :: ps) :=
  (Expr.keyword_operand w).reads.space h

theorem Expr.open_optionPieces {e : Option Expr} (h : optionWellFormed e = true) :
    Open (optionPieces e) := by
  cases e with
  | none => exact Closed.nil.open
  | some e => exact Closed.append_open (Closed.space .nil) (e.operand h).reads

/-- The argument of a `return` may be missing, and then the word stands before the semicolon. -/
theorem Expr.closed_return {e : Option Expr} (h : optionWellFormed e = true) :
    Closed (.keyword .returnWord :: optionPieces e ++ [.delimiter .semicolon]) := by
  cases e with
  | none => exact (keyword_operand .returnWord).reads.delimiter .semicolon .nil
  | some e =>
      exact Closed.keyword_space .returnWord ((e.operand h).reads.delimiter .semicolon .nil)

theorem Declaration.open_pieces {d : Declaration} (h : d.wellFormed = true) : Open d.pieces := by
  obtain ⟨name, init⟩ := d
  rw [wellFormed, Bool.and_eq_true] at h
  have hname := (Expr.identifier_operand h.1).reads
  cases init with
  | none => exact hname
  | some e => exact hname.operator AssignOp.assign.spelled (e.operand h.2).reads

theorem Declaration.open_listPieces {ds : List Declaration} (h : listWellFormed ds = true) :
    Open (listPieces ds) := by
  simp only [listWellFormed, Bool.and_eq_true, List.all_eq_true] at h
  refine Closed.append_open (Closed.keyword_space .letWord .nil) (open_separated ?_)
  intro ps hps
  obtain ⟨d, hd, rfl⟩ := List.mem_map.1 hps
  exact open_pieces (h.2 d hd)

theorem ForInit.open_pieces {init : Option ForInit} (h : init.all wellFormed = true) :
    Open ((init.map pieces).getD []) := by
  match init with
  | none => exact Closed.nil.open
  | some (.declarations ds) => exact Declaration.open_listPieces h
  | some (.expression e) => exact (e.operand h).reads

theorem open_parameters {params : List String} (h : params.all Lexeme.isName = true) :
    Open (separated (params.map fun p => [.identifier p])) := by
  rw [List.all_eq_true] at h
  refine open_separated fun ps hps => ?_
  obtain ⟨name, hname, rfl⟩ := List.mem_map.1 hps
  exact (Expr.identifier_operand (h name hname)).reads

theorem Expr.closed_headPieces (w : Keyword) {test : Expr} (h : test.wellFormed = true) :
    Closed (test.headPieces w) :=
  Closed.keyword_space w (Closed.parenthesized (test.operand h).reads)

end Parts

/-! ## Statements -/

/-- What the options write at the ends of lines are blanks. -/
structure PrintOptions.Blank (options : PrintOptions) : Prop where
  indent : ∀ c ∈ options.indent.toList, Text.isBlank c = true
  newline : ∀ c ∈ options.newline.toList, Text.isBlank c = true

namespace Statement

open Piece

variable {options : PrintOptions} {level : Nat} {ps : List Piece}

theorem closed_line (ho : options.Blank) (h : Closed ps) : Closed (options.line level :: ps) := by
  refine fun rest => .blank ?_ (h rest)
  intro c hc
  rw [String.toList_append, List.mem_append, String.toList_join, List.mem_flatMap] at hc
  rcases hc with hc | ⟨text, htext, hc⟩
  · exact ho.newline c hc
  · rw [(List.mem_replicate.1 htext).2] at hc
    exact ho.indent c hc

theorem closed_block (ho : options.Blank) (level : Nat) (h : Closed ps) :
    Closed (options.block level ps) := by
  unfold PrintOptions.block
  split
  · exact Closed.delimiter _ (Closed.delimiter _ .nil)
  · have hend : Closed [options.line level, .delimiter .closeBrace] :=
      closed_line ho (Closed.delimiter _ .nil)
    exact Closed.delimiter _ (h.append hend)

theorem closed_function (ho : options.Blank) {name : String} {params : List String}
    (hname : Lexeme.isName name = true) (hparams : params.all Lexeme.isName = true)
    {body : List Statement} (h : Closed (linesPieces options (level + 1) body)) :
    Closed ((Statement.function name params body).pieces options level) := by
  have hhead : Open [.keyword .defWord, .space, .identifier name] :=
    (Closed.keyword_space .defWord .nil).append_open (Expr.identifier_operand hname).reads
  rw [pieces, List.append_assoc]
  exact hhead.parenthesized (open_parameters hparams) (closed_block ho level h).space

theorem closed_class (ho : options.Blank) {name : String} {parent : Option String}
    (hname : Lexeme.isName name = true) (hparent : parent.all Lexeme.isName = true)
    {body : List Statement} (h : Closed (linesPieces options (level + 1) body)) :
    Closed ((Statement.class name parent body).pieces options level) := by
  have hhead : Open [.keyword .classWord, .space, .identifier name] :=
    (Closed.keyword_space .classWord .nil).append_open (Expr.identifier_operand hname).reads
  have hblock := closed_block ho level h
  cases parent with
  | none => exact hhead.space hblock
  | some parent =>
      have hextends : Open [.keyword .extendsWord, .space, .identifier parent] :=
        (Closed.keyword_space .extendsWord .nil).append_open
          (Expr.identifier_operand hparent).reads
      exact hhead.space (hextends.space hblock)

theorem closed_for {init : Option ForInit} {test update : Option Expr}
    (hinit : init.all ForInit.wellFormed = true) (htest : Expr.optionWellFormed test = true)
    (hupdate : Expr.optionWellFormed update = true) {body : Statement}
    (h : Closed (body.pieces options level)) :
    Closed ((Statement.forLoop init test update body).pieces options level) := by
  have hclauses := ((ForInit.open_pieces hinit).delimiter_open .semicolon
    (Expr.open_optionPieces htest)).delimiter_open .semicolon (Expr.open_optionPieces hupdate)
  exact ((Closed.keyword_space .forWord .nil).append (Closed.parenthesized hclauses)).append h.space

end Statement

mutual

/-- **Printed statements are read back.** -/
theorem Statement.closed {options : PrintOptions} (ho : options.Blank) (level : Nat) :
    (s : Statement) → s.wellFormed = true → Piece.Closed (s.pieces options level)
  | .expression e, h => (e.operand h).reads.delimiter .semicolon .nil
  | .empty, _ => Piece.Closed.delimiter _ .nil
  | .block body, h => closed_block ho level (Statement.closed_lines ho (level + 1) body h)
  | .variable _, h => (Declaration.open_listPieces h).delimiter .semicolon .nil
  | .ifThen test consequent, h => by
      rw [Statement.wellFormed, Bool.and_eq_true] at h
      exact (Expr.closed_headPieces .ifWord h.1).append (consequent.closed ho level h.2).space
  | .ifElse test consequent alternate, h => by
      simp only [Statement.wellFormed, Bool.and_eq_true] at h
      have hhead := Expr.closed_headPieces .ifWord h.1.1.1
      have hconsequent := (consequent.closed ho level h.1.1.2).space
      have helse : Piece.Closed [.space, .keyword .elseWord, .space] :=
        (Piece.Closed.keyword_space .elseWord .nil).space
      exact ((hhead.append hconsequent).append helse).append (alternate.closed ho level h.2)
  | .whileLoop test body, h => by
      rw [Statement.wellFormed, Bool.and_eq_true] at h
      exact (Expr.closed_headPieces .whileWord h.1).append (body.closed ho level h.2).space
  | .doWhile body test, h => by
      rw [Statement.wellFormed, Bool.and_eq_true] at h
      have hdo := (Piece.Closed.keyword_space .doWord .nil).append (body.closed ho level h.1)
      have hwhile := (Expr.closed_headPieces .whileWord h.2).space
      exact (hdo.append hwhile).append (Piece.Closed.delimiter .semicolon .nil)
  | .forLoop init test update body, h => by
      simp only [Statement.wellFormed, Bool.and_eq_true] at h
      exact closed_for h.1.1.1 h.1.1.2 h.1.2 (body.closed ho level h.2)
  | .function name params body, h => by
      simp only [Statement.wellFormed, Bool.and_eq_true] at h
      exact closed_function ho h.1.1 h.1.2 (Statement.closed_lines ho (level + 1) body h.2)
  | .return _, h => Expr.closed_return h
  | .class name parent body, h => by
      simp only [Statement.wellFormed, Bool.and_eq_true] at h
      exact closed_class ho h.1.1 h.1.2 (Statement.closed_lines ho (level + 1) body h.2)

theorem Statement.closed_lines {options : PrintOptions} (ho : options.Blank) (level : Nat) :
    (ss : List Statement) → Statement.listWellFormed ss = true →
      Piece.Closed (Statement.linesPieces options level ss)
  | [], _ => .nil
  | s :: ss, h => by
      rw [Statement.listWellFormed, Bool.and_eq_true] at h
      have hs := s.closed ho level h.1
      exact closed_line ho (hs.append (Statement.closed_lines ho level ss h.2))

end

/-! ## Programs -/

theorem Program.closed {options : PrintOptions} (ho : options.Blank) (p : Program)
    (h : p.wellFormed = true) : Piece.Closed (p.pieces options) := by
  obtain ⟨body⟩ := p
  cases body with
  | nil => exact .nil
  | cons s ss =>
      have hbody : Statement.listWellFormed (s :: ss) = true := h
      rw [Statement.listWellFormed, Bool.and_eq_true] at hbody
      exact (s.closed ho 0 hbody.1).append (Statement.closed_lines ho 0 ss hbody.2)

/-- **Printed programs are scanned back**, with the newline at the end or without. -/
theorem Program.print_scans {options : PrintOptions} (ho : options.Blank) (p : Program)
    (h : p.wellFormed = true) :
    Scans (p.print options).toList (Piece.lexemes (p.pieces options)) := by
  have htext : (String.join ((p.pieces options).map Piece.text)).toList =
      Piece.chars (p.pieces options) := by
    rw [String.toList_join, List.flatMap_map]
    rfl
  have hread : ∀ rest, Scans rest [] →
      Scans (Piece.chars (p.pieces options) ++ rest) (Piece.lexemes (p.pieces options)) := by
    intro rest hrest
    have hscans := p.closed ho h rest [] hrest
    rw [List.append_nil] at hscans
    exact hscans
  unfold Program.print
  dsimp only
  split
  · rw [String.toList_append, htext]
    have hnewline := Scans.blanks ho.newline Scans.nil
    rw [List.append_nil] at hnewline
    exact hread _ hnewline
  · rw [htext]
    have hscans := hread [] .nil
    rw [List.append_nil] at hscans
    exact hscans

end LetterLang

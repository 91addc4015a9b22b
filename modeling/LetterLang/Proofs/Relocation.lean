import LetterLang.Proofs.CorrectPrefix
import Mathlib.Data.List.Forall2

/-!
# The same lexemes at other places

The same lexemes can stand at other places: with other blanks and comments between them, or further
behind in a longer source. Productions decide by kinds and by texts, and they only ever copy a span
into an error. So two parses of such tokens go the same way, and end with the same tree, or with the
same error at the place that corresponds.

- `ParseError.movedTo`: an error with another span and all else unchanged.
- `Relocation`: two settings, the tokens that meet, and the spans that correspond.
- `Parse.Mirrored`: the outcomes of two steps that go the same way.
- `Grammar.run_mirrors`: every production has such outcomes.
- `parse_of_same_lexemes`: two sources with the same lexemes are parsed alike.
-/

namespace LetterLang

open Parse

/-! ## Errors at other places -/

def ScanError.movedTo (span : Span) : ScanError → ScanError
  | .unexpectedCharacter character _ => .unexpectedCharacter character span.start
  | .unterminatedString quote _ => .unterminatedString quote span.start
  | .unterminatedComment _ => .unterminatedComment span.start

def SyntaxError.movedTo (span : Span) : SyntaxError → SyntaxError
  | .unexpectedToken found expected _ => .unexpectedToken found expected span
  | .unexpectedEnd expected _ => .unexpectedEnd expected span.start
  | .invalidTarget found _ => .invalidTarget found span
  | .expressionExpected found _ => .expressionExpected found span
  | .unexpectedLiteral found _ => .unexpectedLiteral found span
  | .nestingTooDeep limit _ => .nestingTooDeep limit span

def ParseError.movedTo (span : Span) : ParseError → ParseError
  | .scan e => .scan (e.movedTo span)
  | .grammar e => .grammar (e.movedTo span)

/-- Two parses of the same lexemes: which tokens meet, and which spans correspond to one another. -/
structure Relocation where
  left : Setting
  right : Setting
  Meets : Token → Token → Prop
  Corresponds : Span → Span → Prop
  limit_eq : left.limit = right.limit
  lexeme_eq : ∀ {t u}, Meets t u → t.lexeme = u.lexeme
  span : ∀ {t u}, Meets t u → Corresponds t.span u.span
  endSpan : Corresponds (.empty left.ending.offset) (.empty right.ending.offset)
  complete : left.Complete → right.Complete
  fault : ∀ {e}, left.ending = .fault e → ∃ e', right.ending = .fault e' ∧
    e' = e.movedTo e'.span ∧ Corresponds e.span e'.span

variable {R : Relocation} {calls : Nat} {s s' : ParseState} {α β : Type}

/-! ## States and outcomes -/

/-- The same lexemes are left in both states, at the same level of nesting. -/
structure ParseState.Mirrors (R : Relocation) (s s' : ParseState) : Prop where
  depth : s.depth = s'.depth
  pending : List.Forall₂ R.Meets s.pending s'.pending

namespace ParseState.Mirrors

theorem next (h : s.Mirrors R s') : (s.pending = [] ∧ s'.pending = []) ∨
    ∃ t u rest rest', s.pending = t :: rest ∧ s'.pending = u :: rest' ∧ R.Meets t u ∧
      List.Forall₂ R.Meets rest rest' := by
  obtain ⟨pending, consumed, depth⟩ := s
  obtain ⟨pending', consumed', depth'⟩ := s'
  rcases h.pending with _ | ⟨htu, hrest⟩
  · exact .inl ⟨rfl, rfl⟩
  · exact .inr ⟨_, _, _, _, rfl, rfl, htu, hrest⟩

theorem kind_eq (h : s.Mirrors R s') : s.kind = s'.kind := by
  unfold ParseState.kind
  rcases h.next with ⟨hnil, hnil'⟩ | ⟨t, u, rest, rest', hp, hp', htu, -⟩
  · rw [hnil, hnil']
  · rw [hp, hp']
    exact congrArg Prod.fst (R.lexeme_eq htu)

/-- The spans of the next tokens correspond, also where these are the end of the input. -/
theorem lookahead (h : s.Mirrors R s') :
    R.Corresponds (s.lookahead R.left).span (s'.lookahead R.right).span := by
  unfold ParseState.lookahead
  rcases h.next with ⟨hnil, hnil'⟩ | ⟨t, u, rest, rest', hp, hp', htu, -⟩
  · rw [hnil, hnil']
    exact R.endSpan
  · rw [hp, hp']
    exact R.span htu

theorem deeper (h : s.Mirrors R s') :
    ({ s with depth := s.depth + 1 } : ParseState).Mirrors R { s' with depth := s'.depth + 1 } :=
  ⟨congrArg (· + 1) h.depth, h.pending⟩

theorem leave (h : s.Mirrors R s') : (Parse.leave s).Mirrors R (Parse.leave s') :=
  ⟨congrArg (· - 1) h.depth, h.pending⟩

end ParseState.Mirrors

namespace Parse

/-- The outcomes of two steps that go the same way: the same result, or the same error at a place
that corresponds. -/
inductive Mirrored (R : Relocation) :
    EStateM.Result Stop ParseState α → EStateM.Result Stop ParseState α → Prop
  | ok {a : α} {s s' : ParseState} : s.Mirrors R s' → Mirrored R (.ok a s) (.ok a s')
  | failed {e e' : ParseError} {s s' : ParseState} : e' = e.movedTo e'.span →
      R.Corresponds e.span e'.span → Mirrored R (.error (.failed e) s) (.error (.failed e') s')
  | outOfCalls {s s' : ParseState} : Mirrored R (.error .outOfCalls s) (.error .outOfCalls s')

def Mirror (R : Relocation) (m m' : Parse α) : Prop :=
  ∀ s s', s.Mirrors R s' → Mirrored R (m s) (m' s')

theorem Mirrored.bind {m m' : Parse α} {f f' : α → Parse β} (hm : Mirrored R (m s) (m' s'))
    (hf : ∀ a, Mirror R (f a) (f' a)) : Mirrored R ((m >>= f) s) ((m' >>= f') s') := by
  generalize h : m s = r at hm
  generalize h' : m' s' = r' at hm
  cases hm with
  | ok hs =>
      rw [bind_of_ok h, bind_of_ok h']
      exact hf _ _ _ hs
  | failed he hplace =>
      rw [bind_of_error h, bind_of_error h']
      exact .failed he hplace
  | outOfCalls =>
      rw [bind_of_error h, bind_of_error h']
      exact .outOfCalls

namespace Mirror

variable {m m' : Parse α}

theorem pure (a : α) : Mirror R (Pure.pure a : Parse α) (Pure.pure a) :=
  fun _ _ h => .ok h

theorem bind {f f' : α → Parse β} (hm : Mirror R m m') (hf : ∀ a, Mirror R (f a) (f' a)) :
    Mirror R (m >>= f) (m' >>= f') :=
  fun s s' h => (hm s s' h).bind hf

theorem nested (hm : Mirror R m m') :
    Mirror R (Parse.nested R.left m) (Parse.nested R.right m') := by
  intro s s' h
  by_cases hd : R.left.limit.toNat ≤ s.depth
  · have hd' : R.right.limit.toNat ≤ s'.depth := by rwa [← R.limit_eq, ← h.depth]
    rw [nested_of_le hd, nested_of_le hd', R.limit_eq]
    exact .failed rfl h.lookahead
  · have hd : s.depth < R.left.limit.toNat := Nat.lt_of_not_le hd
    have hd' : s'.depth < R.right.limit.toNat := by rwa [← R.limit_eq, ← h.depth]
    rw [nested_of_lt hd, nested_of_lt hd']
    have hinner := hm _ _ h.deeper
    generalize m { s with depth := s.depth + 1 } = r at hinner ⊢
    generalize m' { s' with depth := s'.depth + 1 } = r' at hinner ⊢
    cases hinner with
    | ok hs => exact .ok hs.leave
    | failed he hplace => exact .failed he hplace
    | outOfCalls => exact .outOfCalls

/-- A token is consumed in both parses, or refused in both for the same reason. -/
theorem eat_bind {f f' : Token → Parse β} (k : TokenKind)
    (hf : ∀ t u, R.Meets t u → t.kind = k → Mirror R (f t) (f' u)) :
    Mirror R (Parse.eat R.left k >>= f) (Parse.eat R.right k >>= f') := by
  intro s s' h
  rcases h.next with ⟨hnil, hnil'⟩ | ⟨t, u, rest, rest', hp, hp', htu, hrest⟩
  · rw [bind_of_error (eat_of_nil hnil), bind_of_error (eat_of_nil hnil')]
    exact .failed rfl R.endSpan
  · have hkind : t.kind = u.kind := congrArg Prod.fst (R.lexeme_eq htu)
    have htext : t.text = u.text := congrArg Prod.snd (R.lexeme_eq htu)
    by_cases hk : t.kind = k
    · have hku : u.kind = k := hkind ▸ hk
      by_cases hlast : rest = [] → R.left.Complete
      · have hlast' : rest' = [] → R.right.Complete := by
          rintro rfl
          exact R.complete (hlast (List.forall₂_nil_right_iff.1 hrest))
        have hok := hk ▸ eat_of_cons hp hlast
        have hok' := hku ▸ eat_of_cons hp' hlast'
        rw [bind_of_ok hok, bind_of_ok hok']
        exact hf t u htu hk _ _ ⟨h.depth, hrest⟩
      · obtain ⟨rfl, hnot⟩ := Classical.not_imp.1 hlast
        obtain rfl := List.forall₂_nil_left_iff.1 hrest
        obtain ⟨e, he⟩ := (complete_or_fault R.left).resolve_left hnot
        obtain ⟨e', he', hmoved, hplace⟩ := R.fault he
        have herror := hk ▸ eat_of_fault hp he
        have herror' := hku ▸ eat_of_fault hp' he'
        rw [bind_of_error herror, bind_of_error herror']
        exact .failed (congrArg ParseError.scan hmoved) hplace
    · rw [bind_of_error (eat_of_ne hp hk), bind_of_error (eat_of_ne hp' (hkind ▸ hk)), htext]
      exact .failed rfl (R.span htu)

theorem whileKind {more : TokenKind → Bool} {f f' : α → TokenKind → Parse α} {a : α}
    (hend : more .endOfInput = false) (hp : Progress more fun a => kind >>= f a)
    (hp' : Progress more fun a => kind >>= f' a)
    (hf : ∀ a k, more k = true → Mirror R (f a k) (f' a k)) :
    Mirror R (Parse.whileKind more (fun a => kind >>= f a) a)
      (Parse.whileKind more (fun a => kind >>= f' a) a) := by
  intro s s' h
  induction hn : s.pending.length using Nat.strongRecOn generalizing a s s' with
  | ind n ih =>
      rw [whileKind_eq hend hp, whileKind_eq hend hp', ← h.kind_eq]
      by_cases hmore : more s.kind = true
      · rw [if_pos hmore, if_pos hmore]
        have hround : Mirrored R ((kind >>= f a) s) ((kind >>= f' a) s') := by
          rw [kind_bind, kind_bind, ← h.kind_eq]
          exact hf a s.kind hmore s s' h
        generalize hr : (kind >>= f a) s = r at hround
        generalize hr' : (kind >>= f' a) s' = r' at hround
        cases hround with
        | @ok b s₁ s₁' hs =>
            have hlt := hp a s b s₁ hmore hr
            rw [bind_of_ok hr, bind_of_ok hr']
            exact ih _ (hn ▸ hlt) s₁ s₁' hs rfl
        | failed he hplace =>
            rw [bind_of_error hr, bind_of_error hr']
            exact .failed he hplace
        | outOfCalls =>
            rw [bind_of_error hr, bind_of_error hr']
            exact .outOfCalls
      · rw [if_neg hmore, if_neg hmore]
        exact .ok h

end Mirror

theorem literal?_congr {t u : Token} (h : t.lexeme = u.lexeme) :
    Grammar.literal? t = Grammar.literal? u := by
  unfold Grammar.literal?
  rw [show t.kind = u.kind from congrArg Prod.fst h, show t.text = u.text from congrArg Prod.snd h]

theorem Mirrored.literal (h : s.Mirrors R s') (hk : s.kind.isLiteral = true) :
    Mirrored R (Grammar.literal R.left s) (Grammar.literal R.right s') := by
  rcases h.next with ⟨hnil, -⟩ | ⟨t, u, rest, rest', hp, hp', htu, -⟩
  · rw [kind_of_nil hnil] at hk
    cases hk
  · have hnext : s.lookahead R.left = t := by rw [ParseState.lookahead, hp]; rfl
    have hnext' : s'.lookahead R.right = u := by rw [ParseState.lookahead, hp']; rfl
    have hvalue := literal?_congr (R.lexeme_eq htu)
    cases hu : Grammar.literal? u with
    | none =>
        rw [literal_of_none (by rw [hnext, hvalue, hu]), literal_of_none (by rw [hnext', hu]),
          hnext, hnext', show t.text = u.text from congrArg Prod.snd (R.lexeme_eq htu)]
        exact .failed rfl (R.span htu)
    | some value =>
        rw [literal_of_some (by rw [hnext, hvalue, hu]), literal_of_some (by rw [hnext', hu]),
          hnext, hnext', show t.kind = u.kind from congrArg Prod.fst (R.lexeme_eq htu)]
        exact Mirror.eat_bind _ (fun _ _ _ _ => .pure value) s s' h

theorem Mirror.expressionExpected :
    Mirror R (Grammar.expressionExpected R.left) (Grammar.expressionExpected R.right) := by
  intro s s' h
  rcases h.next with ⟨hnil, hnil'⟩ | ⟨t, u, rest, rest', hp, hp', htu, -⟩
  · rw [expressionExpected_of_nil hnil, expressionExpected_of_nil hnil']
    exact .failed rfl R.endSpan
  · rw [expressionExpected_of_cons hp, expressionExpected_of_cons hp',
      show t.text = u.text from congrArg Prod.snd (R.lexeme_eq htu)]
    exact .failed rfl (R.span htu)

end Parse

/-! ## Productions -/

def Relocation.runs (R : Relocation) (calls : Nat) : TwoRuns where
  left := R.left
  right := R.right
  callLeft := Grammar.run R.left calls
  callRight := Grammar.run R.right calls
  Meets := R.Meets
  lexeme_eq := R.lexeme_eq
  advancesLeft := Grammar.run_advances calls
  advancesRight := Grammar.run_advances calls

theorem Alike.mirror {h : Nat} {b c : Bool} {m m' : Parse α}
    (hcalls : ∀ p, Mirror R (Grammar.run R.left calls p) (Grammar.run R.right calls p))
    (hm : Alike (R.runs calls) h b c m m') : Mirror R m m' := by
  induction hm with
  | pure a => exact .pure a
  | bind _ _ ihm ihf => exact ihm.bind ihf
  | look _ ih =>
      intro s s' h
      rw [kind_bind, kind_bind, ← h.kind_eq]
      exact ih s.kind s s' h
  | literal _ ih =>
      intro s s' h
      rw [kind_bind, kind_bind, ← h.kind_eq]
      split
      · next hk => exact .literal h hk
      · exact ih s.kind s s' h
  | eat k _ ih => exact .eat_bind k ih
  | nested _ ih => exact ih.nested
  | call p _ => exact hcalls p
  | loop hend hp hp' _ ih => exact .whileKind hend hp hp' ih
  | noExpression => exact .expressionExpected
  | @noOperator _ _ _ _ t u expected htu _ =>
      have htext : t.text = u.text := congrArg Prod.snd (R.lexeme_eq htu)
      intro s s' _
      rw [Grammar.unknownOperator, htext]
      exact .failed rfl (R.span htu)
  | noTarget htu _ => exact fun s s' _ => .failed rfl (R.span htu)

/-- **Productions do not look at places.** -/
theorem Grammar.run_mirrors (calls : Nat) (p : Production) :
    Mirror R (run R.left calls p) (run R.right calls p) := by
  induction calls generalizing p with
  | zero => exact fun _ _ _ => .outOfCalls
  | succ calls ih => exact (body_alike (P := R.runs calls) p).mirror ih

/-- Neither do the statements of a program. -/
theorem Grammar.statementsUntil_mirrors (calls : Nat) (stop : TokenKind) :
    Mirror R (statementsUntil (run R.left calls) stop) (statementsUntil (run R.right calls) stop) :=
  (statementsUntil_alike (P := R.runs calls) (h := 2) (b := true) stop (by decide)).mirror
    (run_mirrors calls)

theorem Program.parse_mirrors : Mirror R (Program.parse R.left) (Program.parse R.right) := by
  unfold Program.parse
  rw [← R.limit_eq]
  exact (Grammar.statementsUntil_mirrors _ _).bind fun _ => .pure _

/-- Outcomes that mirror one another are the same program, or the same error at a place that
corresponds. -/
theorem Program.parse_mirrored (h : s.Mirrors R s') :
    (∃ p, outcome R.left (Program.parse R.left s) = .ok p ∧
      outcome R.right (Program.parse R.right s') = .ok p) ∨
    ∃ e e', outcome R.left (Program.parse R.left s) = .error e ∧
      outcome R.right (Program.parse R.right s') = .error e' ∧ e' = e.movedTo e'.span ∧
      R.Corresponds e.span e'.span := by
  have hmirrored := Program.parse_mirrors (R := R) s s' h
  generalize hleft : Program.parse R.left s = r at hmirrored
  generalize Program.parse R.right s' = r' at hmirrored
  cases hmirrored with
  | ok _ => exact .inl ⟨_, rfl, rfl⟩
  | failed he hplace => exact .inr ⟨_, _, rfl, rfl, he, hplace⟩
  | outOfCalls => exact absurd hleft (Program.parse_ne_outOfCalls _)

/-! ## Sources with the same lexemes -/

theorem TokenStream.offset_of_complete {source : String} {offset : UInt32}
    (h : (ofSource source).ending = .complete offset) :
    offset = UInt32.ofNat source.utf8ByteSize := by
  obtain ⟨last, hpasses, -, hending⟩ := Scanner.passes_stream (.ofSource source)
  change (ofSource source).ending = last.ending at hending
  rw [hending] at h
  have hnil : last.rest = [] := Scanner.ending_complete_iff.1 ⟨offset, h⟩
  have hbytes := hpasses.bytes
  rw [hnil, Scanner.bytes_ofSource] at hbytes
  have hoffset := Scanner.offset_ending last
  rw [h] at hoffset
  rw [← hbytes]
  exact hoffset

/-- The two spans belong to the tokens of one index, or both to the end of the input. -/
def SamePlace (source source' : String) (ts us : List Token) (span span' : Span) : Prop :=
  (∃ (i : Nat) (t u : Token), ts[i]? = some t ∧ us[i]? = some u ∧ span = t.span ∧ span' = u.span) ∨
    span = .empty (UInt32.ofNat source.utf8ByteSize) ∧
      span' = .empty (UInt32.ofNat source'.utf8ByteSize)

/-- Tokens with the same lexemes meet where they have the same index. -/
theorem forall₂_of_same_lexemes {ts us : List Token}
    (h : ts.map Token.lexeme = us.map Token.lexeme) :
    List.Forall₂ (fun t u => t.lexeme = u.lexeme ∧
      ∃ i : Nat, ts[i]? = some t ∧ us[i]? = some u) ts us := by
  have hlength : ts.length = us.length := by simpa using congrArg List.length h
  refine List.forall₂_iff_get.2 ⟨hlength, fun i hi hi' => ⟨?_, i, ?_, ?_⟩⟩
  · have hget := congrArg (·[i]?) h
    simpa [hi, hi'] using hget
  · simp [hi]
  · simp [hi']

/-- **Blanks, comments and places do not matter.** Two sources that scan as the same kinds and texts
are parsed to the same tree, or both fail with the same error but for its span, which belongs to the
token of the same index in both, or to the end of both inputs. -/
theorem parse_of_same_lexemes {source source' : String} {ts us : List Token}
    (h : tokenize source = .ok ts) (h' : tokenize source' = .ok us)
    (hsame : ts.map Token.lexeme = us.map Token.lexeme) (limit : UInt32) :
    (∃ p, parse limit source = .ok p ∧ parse limit source' = .ok p) ∨
      ∃ e e', parse limit source = .error e ∧ parse limit source' = .error e' ∧
        e' = e.movedTo e'.span ∧ SamePlace source source' ts us e.span e'.span := by
  obtain ⟨offset, hstream⟩ := tokenize_eq_ok.1 h
  obtain ⟨offset', hstream'⟩ := tokenize_eq_ok.1 h'
  have hoffset := TokenStream.offset_of_complete (congrArg TokenStream.ending hstream)
  have hoffset' := TokenStream.offset_of_complete (congrArg TokenStream.ending hstream')
  let R : Relocation :=
    { left := ⟨limit, .complete offset⟩
      right := ⟨limit, .complete offset'⟩
      Meets := fun t u => t.lexeme = u.lexeme ∧ ∃ i : Nat, ts[i]? = some t ∧ us[i]? = some u
      Corresponds := SamePlace source source' ts us
      limit_eq := rfl
      lexeme_eq := fun htu => htu.1
      span := fun ⟨_, i, ht, hu⟩ => .inl ⟨i, _, _, ht, hu, rfl, rfl⟩
      endSpan := .inr ⟨congrArg Span.empty hoffset, congrArg Span.empty hoffset'⟩
      complete := fun _ => ⟨offset', rfl⟩
      fault := nofun }
  have hstart : ParseState.Mirrors R ⟨ts, [], 0⟩ ⟨us, [], 0⟩ := ⟨rfl, forall₂_of_same_lexemes hsame⟩
  have hmirrored := Program.parse_mirrored hstart
  rw [parse_eq_outcome, parse_eq_outcome, hstream, hstream', TokenStream.parse_eq fun _ => ⟨_, rfl⟩,
    TokenStream.parse_eq fun _ => ⟨_, rfl⟩]
  exact hmirrored

/-- The operand is missing in both, whatever stands between the tokens. -/
theorem parse_of_same_lexemes_operand :
    parse 8 "a+;" = .error (.grammar (.expressionExpected ";" ⟨2, 1⟩)) ∧
      ∃ e, parse 8 "a /* b */ +\n;" = .error e ∧
        e = .grammar (.expressionExpected ";" e.span) := by
  have hstream : TokenStream.ofSource "a+;" =
      ⟨[⟨.identifier, "a", ⟨0, 1⟩⟩, ⟨.additive, "+", ⟨1, 1⟩⟩, ⟨.delimiter .semicolon, ";", ⟨2, 1⟩⟩],
        .complete 3⟩ := by
    decide +kernel
  have hstream' : TokenStream.ofSource "a /* b */ +\n;" =
      ⟨[⟨.identifier, "a", ⟨0, 1⟩⟩, ⟨.additive, "+", ⟨10, 1⟩⟩,
        ⟨.delimiter .semicolon, ";", ⟨12, 1⟩⟩], .complete 13⟩ := by
    decide +kernel
  have herror : parse 8 "a+;" = .error (.grammar (.expressionExpected ";" ⟨2, 1⟩)) := by
    rw [parse_eq_outcome, hstream]
    rfl
  refine ⟨herror, ?_⟩
  have htokens := tokenize_eq_ok.2 ⟨_, hstream⟩
  have htokens' := tokenize_eq_ok.2 ⟨_, hstream'⟩
  rcases parse_of_same_lexemes htokens htokens' rfl 8 with
    ⟨p, hok, -⟩ | ⟨e, e', he, he', hmoved, -⟩
  · cases herror.symm.trans hok
  · cases herror.symm.trans he
    exact ⟨e', he', hmoved⟩

end LetterLang

import LetterLang.Proofs.CorrectPrefix
import LetterLang.Proofs.Failure

/-!
# What the limit on nesting changes

A source is parsed under two limits. The depth of nesting decides nothing but whether a level may be
entered, so both parses do the same up to the first level that only the larger limit allows. There
the parse under the smaller limit stops, and the other one goes on from the same state, so whatever
it ends with lies at the same place or further on.

- `Parse.Tightened`: the outcomes of the two parses.
- `Grammar.run_tightens`: every production has such outcomes.
- `parse_under_limits`: a smaller limit turns outcomes into failures for depth and does nothing
  else, so every source has a threshold from which on the limit does not matter.
-/

namespace LetterLang

open Parse

variable {loose tight : Setting} {calls : Nat} {s : ParseState} {α β : Type}

/-! ## Steps that only consume -/

/-- Whatever its outcome, the step has only consumed tokens. -/
def Parse.Shrinks (m : Parse α) : Prop :=
  ∀ s, (endState (m s)).pending <:+ s.pending

namespace Parse.Shrinks

variable {m : Parse α}

theorem pure (a : α) : Shrinks (Pure.pure a : Parse α) :=
  fun _ => List.suffix_rfl

theorem bind {f : α → Parse β} (hm : Shrinks m) (hf : ∀ a, Shrinks (f a)) : Shrinks (m >>= f) := by
  intro s
  have hfirst := hm s
  cases h : m s with
  | error e s₁ =>
      rw [h] at hfirst
      rwa [bind_of_error h]
  | ok a s₁ =>
      rw [h] at hfirst
      rw [bind_of_ok h]
      exact (hf a s₁).trans hfirst

theorem repeatWhile {more : TokenKind → Bool} {f : α → TokenKind → Parse α}
    (hf : ∀ a k, more k = true → Shrinks (f a k)) (fuel : List Token) (a : α) :
    Shrinks (Parse.repeatWhile more (fun a => kind >>= f a) fuel a) := by
  induction fuel generalizing a with
  | nil => exact pure a
  | cons t fuel ih =>
      intro s
      rw [repeatWhile_cons]
      split
      · next hm => exact bind (hf a s.kind hm) ih s
      · exact List.suffix_rfl

end Parse.Shrinks

/-! ## Two limits -/

namespace Parse

/-- The outcomes of a step under two limits: they are the same, or the nesting is too deep for the
smaller one. Then the other parse has gone on from there. -/
inductive Tightened (tight : Setting) :
    EStateM.Result Stop ParseState α → EStateM.Result Stop ParseState α → Prop
  | same {r} : Tightened tight r r
  | tooDeep {r s} : (endState r).pending <:+ s.pending → Tightened tight r
      (.error (.failed (.grammar (.nestingTooDeep tight.limit (s.lookahead tight).span))) s)

def Tightens (tight : Setting) (m m' : Parse α) : Prop :=
  ∀ s, Tightened tight (m s) (m' s)

namespace Tightens

variable {m m' : Parse α}

theorem of_eq (h : m = m') : Tightens tight m m' := by
  subst h
  exact fun s => .same

theorem bind {f f' : α → Parse β} (hm : Tightens tight m m')
    (hf : ∀ a, Tightens tight (f a) (f' a)) (hshrinks : ∀ a, Shrinks (f a)) :
    Tightens tight (m >>= f) (m' >>= f') := by
  intro s
  have hfirst := hm s
  cases h' : m' s with
  | ok a s₁ =>
      rw [h'] at hfirst
      generalize h : m s = r at hfirst
      cases hfirst with
      | same =>
          rw [bind_of_ok h, bind_of_ok h']
          exact hf a s₁
  | error e s₁ =>
      rw [h'] at hfirst
      rw [bind_of_error h']
      generalize h : m s = r at hfirst
      cases hfirst with
      | same =>
          rw [bind_of_error h]
          exact .same
      | tooDeep hsuffix =>
          refine .tooDeep ?_
          cases r with
          | error e s₂ => rwa [bind_of_error h]
          | ok a s₂ =>
              rw [bind_of_ok h]
              exact (hshrinks a s₂).trans hsuffix

theorem nested (hlimit : tight.limit ≤ loose.limit) (hm : Tightens tight m m')
    (hshrinks : Shrinks m) :
    Tightens tight (Parse.nested loose m) (Parse.nested tight m') := by
  intro s
  have hlimit : tight.limit.toNat ≤ loose.limit.toNat := hlimit
  by_cases hd' : tight.limit.toNat ≤ s.depth
  · rw [nested_of_le hd']
    refine .tooDeep ?_
    by_cases hd : loose.limit.toNat ≤ s.depth
    · rw [nested_of_le hd]
      exact List.suffix_rfl
    · rw [nested_of_lt (Nat.lt_of_not_le hd)]
      have hinner := hshrinks { s with depth := s.depth + 1 }
      cases h : m { s with depth := s.depth + 1 } with
      | ok a s₁ => rwa [h] at hinner
      | error e s₁ => rwa [h] at hinner
  · have hd' : s.depth < tight.limit.toNat := Nat.lt_of_not_le hd'
    rw [nested_of_lt hd', nested_of_lt (Nat.lt_of_lt_of_le hd' hlimit)]
    have hinner := hm { s with depth := s.depth + 1 }
    generalize m { s with depth := s.depth + 1 } = r at hinner ⊢
    generalize m' { s with depth := s.depth + 1 } = r' at hinner ⊢
    cases hinner with
    | same => exact .same
    | @tooDeep s₁ hsuffix =>
        have hdeep : (endState r).pending <:+ (leave s₁).pending := hsuffix
        cases r with
        | ok a s₂ => exact .tooDeep (s := leave s₁) hdeep
        | error e s₂ => exact .tooDeep (s := leave s₁) hdeep

theorem whileKind {more : TokenKind → Bool} {f f' : α → TokenKind → Parse α}
    (hf : ∀ a k, more k = true → Tightens tight (f a k) (f' a k))
    (hshrinks : ∀ a k, more k = true → Shrinks (f a k)) (a : α) :
    Tightens tight (Parse.whileKind more (fun a => kind >>= f a) a)
      (Parse.whileKind more (fun a => kind >>= f' a) a) := by
  have rounds : ∀ (fuel : List Token) (a : α),
      Tightens tight (repeatWhile more (fun a => kind >>= f a) fuel a)
        (repeatWhile more (fun a => kind >>= f' a) fuel a) := by
    intro fuel
    induction fuel with
    | nil => exact fun a => of_eq rfl
    | cons t fuel ih =>
        intro a s
        rw [repeatWhile_cons, repeatWhile_cons]
        by_cases hm : more s.kind = true
        · rw [if_pos hm, if_pos hm]
          exact bind (hf a s.kind hm) ih (Shrinks.repeatWhile hshrinks fuel) s
        · rw [if_neg hm, if_neg hm]
          exact .same
  exact fun s => rounds s.pending a s

end Tightens

theorem eat_congr (h : loose.ending = tight.ending) (k : TokenKind) : eat loose k = eat tight k := by
  obtain ⟨limit, ending⟩ := loose
  obtain ⟨limit', ending'⟩ := tight
  obtain rfl : ending = ending' := h
  rfl

theorem literal_congr (h : loose.ending = tight.ending) :
    Grammar.literal loose = Grammar.literal tight := by
  obtain ⟨limit, ending⟩ := loose
  obtain ⟨limit', ending'⟩ := tight
  obtain rfl : ending = ending' := h
  rfl

theorem expressionExpected_congr (h : loose.ending = tight.ending) :
    Grammar.expressionExpected loose = Grammar.expressionExpected tight := by
  obtain ⟨limit, ending⟩ := loose
  obtain ⟨limit', ending'⟩ := tight
  obtain rfl : ending = ending' := h
  rfl

end Parse

/-! ## Productions -/

def TwoRuns.limits (loose tight : Setting) (calls : Nat) : TwoRuns where
  left := loose
  right := tight
  callLeft := Grammar.run loose calls
  callRight := Grammar.run tight calls
  Meets := Eq
  lexeme_eq := congrArg Token.lexeme
  advancesLeft := Grammar.run_advances calls
  advancesRight := Grammar.run_advances calls

theorem Alike.shrinks {h : Nat} {b c : Bool} {m m' : Parse α}
    (hm : Alike (.limits loose tight calls) h b c m m') : Shrinks m := by
  intro s
  have haccounts := hm.accounts (Grammar.run_accounts calls)
  exact (haccounts s fun t _ => ⟨t, rfl⟩).reaches.suffix

theorem Alike.tightens {h : Nat} {b c : Bool} {m m' : Parse α}
    (hlimit : tight.limit ≤ loose.limit) (hending : loose.ending = tight.ending)
    (hcalls : ∀ p, Tightens tight (Grammar.run loose calls p) (Grammar.run tight calls p))
    (hm : Alike (.limits loose tight calls) h b c m m') : Tightens tight m m' := by
  induction hm with
  | pure a => exact .of_eq rfl
  | bind _ hf ihm ihf => exact ihm.bind ihf fun a => (hf a).shrinks
  | look _ ih => exact fun s => ih s.kind s
  | literal _ ih =>
      intro s
      rw [kind_bind, kind_bind]
      split
      · exact Tightens.of_eq (literal_congr hending) s
      · exact ih s.kind s
  | @eat _ _ _ _ f f' k hf ih =>
      show Tightens tight (Parse.eat loose k >>= f) (Parse.eat tight k >>= f')
      rw [eat_congr hending]
      intro s
      cases heat : Parse.eat tight k s with
      | error e s₁ =>
          rw [bind_of_error heat, bind_of_error heat]
          exact .same
      | ok t s₁ =>
          obtain ⟨-, -, hkind, -⟩ := eat_eq_ok.1 heat
          rw [bind_of_ok heat, bind_of_ok heat]
          exact ih t t rfl hkind s₁
  | nested hm ih => exact ih.nested hlimit hm.shrinks
  | call p _ => exact hcalls p
  | loop _ _ _ hf ih => exact .whileKind ih (fun a k hk => (hf a k hk).shrinks) _
  | noExpression => exact .of_eq (expressionExpected_congr hending)
  | noOperator htu _ =>
      obtain rfl := htu
      exact .of_eq rfl
  | noTarget htu _ =>
      obtain rfl := htu
      exact .of_eq rfl

/-- **A smaller limit only ever stops a production earlier.** -/
theorem Grammar.run_tightens (hlimit : tight.limit ≤ loose.limit)
    (hending : loose.ending = tight.ending) (calls : Nat) (p : Production) :
    Tightens tight (run loose calls p) (run tight calls p) := by
  induction calls generalizing p with
  | zero => exact fun s => .same
  | succ calls ih => exact (body_alike (P := .limits loose tight calls) p).tightens hlimit hending ih

theorem Program.parse_tightens (hlimit : tight.limit ≤ loose.limit)
    (hending : loose.ending = tight.ending) :
    Tightens tight (Program.parse loose) (Program.parse tight) := by
  have hbudget : callBudget tight.limit ≤ callBudget loose.limit :=
    Nat.mul_le_mul_left _ (Nat.succ_le_succ hlimit)
  have halike := Grammar.statementsUntil_alike
    (P := .limits loose tight (callBudget loose.limit)) (h := 2) (b := true) .endOfInput (by decide)
  have hstatements := halike.tightens hlimit hending (Grammar.run_tightens hlimit hending _)
  unfold Program.parse
  rw [show Grammar.run tight (callBudget tight.limit) = Grammar.run tight (callBudget loose.limit)
    from (Grammar.run_eq_produce hbudget).symm]
  exact hstatements.bind (fun _ => .of_eq rfl) fun _ => .pure _

/-! ## The order of tokens -/

variable {source : String}

/-- The tokens of a source, and the end of the input behind them, come in the order in which they
start. -/
theorem TokenStream.pairwise_start (hsize : source.utf8ByteSize < 2 ^ 32) :
    ((ofSource source).tokens ++ [Token.endOfInput (ofSource source).ending.offset]).Pairwise
      fun t u => t.span.start ≤ u.span.start := by
  obtain ⟨s', hpasses, -, hending⟩ := Scanner.passes_stream (.ofSource source)
  change Scanner.Passes _ (ofSource source).tokens s' at hpasses
  change (ofSource source).ending = s'.ending at hending
  have hbytes : s'.position ≤ source.utf8ByteSize := by
    rw [← Scanner.bytes_ofSource, ← hpasses.bytes]
    exact Nat.le_add_right _ _
  rw [← Scanner.bytes_ofSource] at hsize
  refine List.pairwise_append.2 ⟨?_, List.pairwise_singleton _ _, ?_⟩
  · refine (hpasses.interleaved hsize).pairwise.imp fun {t u} h => ?_
    exact Nat.le_trans (Nat.le_add_right _ _) h
  · intro t ht u hu
    obtain rfl := List.mem_singleton.1 hu
    rw [hending, Scanner.offset_ending]
    show t.span.start.toNat ≤ (UInt32.ofNat s'.position).toNat
    rw [UInt32.toNat_ofNat_of_lt' (Nat.lt_of_le_of_lt hbytes (Scanner.bytes_ofSource source ▸ hsize))]
    exact Nat.le_of_lt (hpasses.start_lt hsize t ht)

/-- Of two states of a parse the one with fewer tokens left is further on. -/
theorem ParseState.start_lookahead_le {g g' : Setting} {ts : List Token} {s s' : ParseState}
    (hsorted : (ts ++ [Token.endOfInput g.ending.offset]).Pairwise
      fun t u => t.span.start ≤ u.span.start)
    (hending : g.ending = g'.ending) (hs : s.pending <:+ ts) (hs' : s'.pending <:+ s.pending) :
    (s.lookahead g).span.start ≤ (s'.lookahead g').span.start := by
  unfold lookahead
  rw [← hending]
  generalize Token.endOfInput g.ending.offset = last at hsorted ⊢
  generalize s.pending = us at hs hs' ⊢
  generalize s'.pending = vs at hs' ⊢
  cases us with
  | nil =>
      obtain rfl := List.suffix_nil.1 hs'
      exact UInt32.le_refl _
  | cons t us =>
      obtain ⟨before, rfl⟩ := hs
      rcases List.suffix_cons_iff.1 hs' with rfl | ⟨used, rfl⟩
      · exact UInt32.le_refl _
      · rw [List.append_assoc] at hsorted
        have hafter := (List.pairwise_cons.1 (List.pairwise_append.1 hsorted).2.1).1
        refine hafter _ ?_
        cases vs with
        | nil => simp
        | cons u vs => simp

/-! ## Sources -/

/-- A parse whose nesting is too deep names its own limit, and the next token. -/
theorem Program.lookahead_of_tooDeep {g : Setting} {s s' : ParseState} {limit : UInt32} {span : Span}
    (h : Program.parse g s = .error (.failed (.grammar (.nestingTooDeep limit span))) s') :
    limit = g.limit ∧ span = (s'.lookahead g).span := by
  have haccounts : Accounts g (fun _ => True) false (Program.parse g) := Program.parse_accounts
  obtain ⟨-, hexplains⟩ := haccounts.error (fun _ _ => trivial) h
  cases hexplains with
  | nestingTooDeep => exact ⟨rfl, rfl⟩

/-- The parses of a source under two limits. -/
theorem parse_tightened {limit limit' : UInt32} (hsize : source.utf8ByteSize < 2 ^ 32)
    (hle : limit ≤ limit') : parse limit source = parse limit' source ∨
      ∃ span, parse limit source = .error (.grammar (.nestingTooDeep limit span)) ∧
        ∀ l span', parse limit' source = .error (.grammar (.nestingTooDeep l span')) →
          span.start ≤ span'.start := by
  rcases parse_fault_or_outcome source with ⟨e, -, hparse⟩ | ⟨-, hparse⟩
  · exact .inl ((hparse limit).trans (hparse limit').symm)
  · rw [hparse, hparse]
    have hsorted := TokenStream.pairwise_start hsize
    generalize TokenStream.ofSource source = stream at hsorted ⊢
    have hlimit : (stream.setting limit).limit ≤ (stream.setting limit').limit := hle
    have htightened := Program.parse_tightens hlimit rfl stream.start
    generalize hloose : Program.parse (stream.setting limit') stream.start = r at htightened
    generalize htight : Program.parse (stream.setting limit) stream.start = r' at htightened
    cases htightened with
    | same =>
        left
        cases r with
        | ok p s => rfl
        | error stop s =>
            cases stop with
            | failed e => rfl
            | outOfCalls => exact absurd hloose (Program.parse_ne_outOfCalls s)
    | @tooDeep s hsuffix =>
        right
        refine ⟨_, rfl, fun l span' h => ?_⟩
        rw [← hloose] at h hsuffix
        obtain ⟨s', herror⟩ := Program.eq_error_of_outcome h
        obtain ⟨-, rfl⟩ := Program.lookahead_of_tooDeep herror
        rw [herror] at hsuffix
        have haccounts : Accounts (stream.setting limit) (fun _ => True) false
            (Program.parse (stream.setting limit)) := Program.parse_accounts
        have hstart : s.pending <:+ stream.tokens :=
          (haccounts.error (fun _ _ => trivial) htight).1.suffix
        exact ParseState.start_lookahead_le hsorted rfl hstart hsuffix

/-- An error about the depth names the limit that is exceeded. -/
theorem limit_of_tooDeep {limit l : UInt32} {span : Span}
    (h : parse limit source = .error (.grammar (.nestingTooDeep l span))) : l = limit := by
  rcases explains_of_parse h with ⟨fault, -, heq⟩ | ⟨-, s', herror, -⟩
  · cases heq
  · exact (Program.lookahead_of_tooDeep herror).1

/-- The nesting of a source is too deep for a limit. -/
def TooDeep (source : String) (limit : UInt32) : Prop :=
  ∃ span, parse limit source = .error (.grammar (.nestingTooDeep limit span))

/-- Either every limit is exceeded, or there is a smallest one that is not. -/
theorem tooDeep_or_least (source : String) : (∀ limit, TooDeep source limit) ∨
    ∃ threshold, ¬ TooDeep source threshold ∧ ∀ limit < threshold, TooDeep source limit := by
  by_cases hall : ∀ limit, TooDeep source limit
  · exact .inl hall
  · right
    obtain ⟨limit, hlimit⟩ := Classical.not_forall.1 hall
    induction hn : limit.toNat using Nat.strongRecOn generalizing limit with
    | ind n ih =>
        by_cases hbelow : ∀ l < limit, TooDeep source l
        · exact ⟨limit, hlimit, hbelow⟩
        · obtain ⟨l, hl⟩ := Classical.not_forall.1 hbelow
          obtain ⟨hlt, hl⟩ := Classical.not_imp.1 hl
          exact ih l.toNat (hn ▸ hlt) l hl rfl

/-- **The limit on nesting only ever turns outcomes into failures for depth.** Of two limits, what
the smaller one lets pass the larger one gives too, be it a program or another error. Where the
larger one finds the nesting too deep, so does the smaller one, at the same place or before. So
there is a threshold: every limit below it is exceeded, and from there on the limit does not
matter. -/
theorem parse_under_limits {source : String} (hsize : source.utf8ByteSize < 2 ^ 32) :
    (∀ limit limit' : UInt32, limit ≤ limit' →
      (∀ p, parse limit source = .ok p → parse limit' source = .ok p) ∧
      (∀ e, parse limit source = .error e →
        (∀ l span, e ≠ .grammar (.nestingTooDeep l span)) → parse limit' source = .error e) ∧
      ∀ l span', parse limit' source = .error (.grammar (.nestingTooDeep l span')) →
        ∃ span, parse limit source = .error (.grammar (.nestingTooDeep limit span)) ∧
          span.start ≤ span'.start) ∧
    ∃ threshold : UInt32, (∀ limit < threshold, TooDeep source limit) ∧
      ∀ limit ≥ threshold, parse limit source = parse threshold source := by
  constructor
  · intro limit limit' hle
    rcases parse_tightened hsize hle with heq | ⟨span, hdeep, hplace⟩
    · rw [heq]
      refine ⟨fun p h => h, fun e h _ => h, fun l span' h => ⟨span', ?_, UInt32.le_refl _⟩⟩
      obtain rfl := limit_of_tooDeep (heq.trans h)
      exact h
    · rw [hdeep]
      refine ⟨nofun, ?_, fun l span' h => ⟨span, rfl, hplace l span' h⟩⟩
      rintro e he hnot
      cases he
      exact absurd rfl (hnot limit span)
  · rcases tooDeep_or_least source with hall | ⟨threshold, hnot, hbelow⟩
    · refine ⟨UInt32.ofNat (UInt32.size - 1), fun limit _ => hall limit, fun limit hge => ?_⟩
      have hmax : UInt32.size - 1 ≤ limit.toNat := hge
      have hlt := limit.toNat_lt_size
      have heq : limit = UInt32.ofNat (UInt32.size - 1) :=
        UInt32.toNat_inj.1 (Nat.le_antisymm (Nat.le_sub_one_of_lt hlt) hmax)
      rw [heq]
    · refine ⟨threshold, hbelow, fun limit hge => ?_⟩
      rcases parse_tightened hsize hge with heq | ⟨span, hdeep, -⟩
      · exact heq.symm
      · exact absurd ⟨span, hdeep⟩ hnot

/-- A name in parentheses stands three levels deep. -/
theorem parse_under_limits_parentheses :
    (∀ limit < 3, TooDeep "(a);" limit) ∧
      ∀ limit ≥ 3, parse limit "(a);" = .ok ⟨[.expression (.identifier "a")]⟩ := by
  have hstream : TokenStream.ofSource "(a);" =
      ⟨[⟨.delimiter .openParen, "(", ⟨0, 1⟩⟩, ⟨.identifier, "a", ⟨1, 1⟩⟩,
        ⟨.delimiter .closeParen, ")", ⟨2, 1⟩⟩, ⟨.delimiter .semicolon, ";", ⟨3, 1⟩⟩],
        .complete 4⟩ := by
    decide +kernel
  have hdeep : parse 2 "(a);" = .error (.grammar (.nestingTooDeep 2 ⟨1, 1⟩)) := by
    rw [parse_eq_outcome, hstream]
    rfl
  have hok : parse 3 "(a);" = .ok ⟨[.expression (.identifier "a")]⟩ := by
    rw [parse_eq_outcome, hstream]
    rfl
  obtain ⟨hlimits, -⟩ := parse_under_limits (by decide : "(a);".utf8ByteSize < 2 ^ 32)
  constructor
  · intro limit hlt
    have hle : limit ≤ 2 := Nat.le_of_lt_succ hlt
    obtain ⟨span, hspan, -⟩ := (hlimits limit 2 hle).2.2 2 ⟨1, 1⟩ hdeep
    exact ⟨span, hspan⟩
  · intro limit hge
    exact (hlimits 3 limit hge).1 _ hok

end LetterLang

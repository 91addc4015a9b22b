import LetterLang.Proofs.Productions

/-!
# The budget of calls

A production is run with a number of calls that it may have open at once. The number is a bound and
nothing else:

- `Grammar.run_mono`: a run that does not use its calls up has the same outcome with more of them.
- `Grammar.run_ne_outOfCalls`: the calls are not used up if there are `callsPerLevel` of them for
  each level of nesting that the limit leaves, and as many as the production is high.

So the productions as a parse runs them, `Grammar.produce`, satisfy the equations of the grammar as
they stand, without any number of calls (`Grammar.produce_eq`).
-/

namespace LetterLang

open Parse
open Production (Calls)

variable {g : Setting} {s : ParseState} {α β : Type}

/-! ## More calls -/

/-- The second step does what the first one does, wherever the first one does not use its calls
up. -/
def Parse.Agrees (m m' : Parse α) : Prop :=
  ∀ s, (∃ s', m s = .error .outOfCalls s') ∨ m s = m' s

namespace Parse.Agrees

variable {m m' : Parse α}

theorem refl (m : Parse α) : Agrees m m :=
  fun _ => .inr rfl

theorem bind {f f' : α → Parse β} (hm : Agrees m m') (hf : ∀ a, Agrees (f a) (f' a)) :
    Agrees (m >>= f) (m' >>= f') := by
  intro s
  rcases hm s with ⟨s', hout⟩ | heq
  · exact .inl ⟨s', bind_of_error hout⟩
  · cases hs : m s with
    | error e s' =>
        rw [bind_of_error hs, bind_of_error (heq ▸ hs)]
        exact .inr rfl
    | ok a s' =>
        rw [bind_of_ok hs, bind_of_ok (heq ▸ hs)]
        exact hf a s'

theorem nested (hm : Agrees m m') : Agrees (Parse.nested g m) (Parse.nested g m') := by
  intro s
  by_cases hd : g.limit.toNat ≤ s.depth
  · rw [nested_of_le hd, nested_of_le hd]
    exact .inr rfl
  · have hd : s.depth < g.limit.toNat := Nat.lt_of_not_le hd
    rw [nested_of_lt hd, nested_of_lt hd]
    rcases hm { s with depth := s.depth + 1 } with ⟨s', hout⟩ | heq
    · rw [hout]
      exact .inl ⟨leave s', rfl⟩
    · rw [heq]
      exact .inr rfl

theorem whileKind {more : TokenKind → Bool} {f f' : α → TokenKind → Parse α}
    (hf : ∀ a k, more k = true → Agrees (f a k) (f' a k)) (a : α) :
    Agrees (Parse.whileKind more (fun a => kind >>= f a) a)
      (Parse.whileKind more (fun a => kind >>= f' a) a) := by
  have rounds : ∀ (fuel : List Token) (a : α),
      Agrees (repeatWhile more (fun a => kind >>= f a) fuel a)
        (repeatWhile more (fun a => kind >>= f' a) fuel a) := by
    intro fuel
    induction fuel with
    | nil => exact fun a => refl _
    | cons t fuel ih =>
        intro a s
        rw [repeatWhile_cons, repeatWhile_cons]
        by_cases hm : more s.kind = true
        · rw [if_pos hm, if_pos hm]
          exact bind (hf a s.kind hm) ih s
        · rw [if_neg hm, if_neg hm]
          exact .inr rfl
  exact fun s => rounds s.pending a s

end Parse.Agrees

theorem Alike.agrees {call call' : Calls} {hcall hcall'} {h : Nat} {b c : Bool} {m m' : Parse α}
    (hagrees : ∀ p, Agrees (call p) (call' p))
    (hm : Alike (.ofCalls g call call' hcall hcall') h b c m m') : Agrees m m' := by
  induction hm with
  | pure a => exact .refl _
  | bind _ _ ihm ihf => exact ihm.bind ihf
  | look _ ih => exact fun s => ih s.kind s
  | literal _ ih =>
      intro s
      rw [kind_bind, kind_bind]
      split
      · exact .inr rfl
      · exact ih s.kind s
  | eat k _ ih =>
      intro s
      cases heat : Parse.eat g k s with
      | error e s' =>
          refine .inr ?_
          exact (bind_of_error heat).trans (bind_of_error heat).symm
      | ok t s' =>
          obtain ⟨-, -, hkind, -⟩ := eat_eq_ok.1 heat
          rcases ih t t rfl hkind s' with ⟨s₁, hout⟩ | heq
          · exact .inl ⟨s₁, (bind_of_ok heat).trans hout⟩
          · exact .inr ((bind_of_ok heat).trans (heq.trans (bind_of_ok heat).symm))
  | nested _ ih => exact ih.nested
  | call p _ => exact hagrees p
  | loop _ _ _ _ ih => exact .whileKind ih _
  | noExpression => exact .refl _
  | noOperator htu _ =>
      obtain rfl := htu
      exact .refl _
  | noTarget htu _ =>
      obtain rfl := htu
      exact .refl _

/-- **More calls change nothing.** A run that does not use its calls up has the same outcome with
one more of them. -/
theorem Grammar.run_mono (calls : Nat) (p : Production) :
    Agrees (run g calls p) (run g (calls + 1) p) := by
  induction calls generalizing p with
  | zero => exact fun s => .inl ⟨s, rfl⟩
  | succ calls ih =>
      exact (body_alike (P := .ofCalls g (run g calls) (run g (calls + 1)) (run_advances calls)
        (run_advances (calls + 1))) p).agrees ih

/-! ## Enough calls -/

def ParseState.levelsLeft (g : Setting) (s : ParseState) : Nat :=
  g.limit.toNat - s.depth

theorem ParseState.Leads.levelsLeft_eq {c : Bool} {s s' : ParseState} (h : s.Leads c s') :
    s'.levelsLeft g = s.levelsLeft g := by
  rw [levelsLeft, h.depth, levelsLeft]

/-- Where the calls do for `h` productions and the levels that are left, the step does not use them
up. -/
def Parse.Suffices (g : Setting) (calls h : Nat) (m : Parse α) : Prop :=
  ∀ s, h + callsPerLevel * s.levelsLeft g ≤ calls → ∀ s', m s ≠ .error .outOfCalls s'

namespace Parse.Suffices

variable {calls h : Nat} {m : Parse α}

theorem of_failed (hm : ∀ s e s', m s = .error e s' → ∃ error, e = .failed error) :
    Suffices g calls h m := by
  intro s _ s' hout
  obtain ⟨error, he⟩ := hm s .outOfCalls s' hout
  cases he

theorem pure (a : α) : Suffices g calls h (Pure.pure a) :=
  fun _ _ _ => nofun

theorem bind {c : Bool} {f : α → Parse β} (hadvances : Advances c m)
    (hm : Suffices g calls h m) (hf : ∀ a, Suffices g calls h (f a)) :
    Suffices g calls h (m >>= f) := by
  intro s hs s' hout
  cases hrun : m s with
  | error e s₁ =>
      rw [bind_of_error hrun] at hout
      cases hout
      exact hm s hs s' hrun
  | ok a s₁ =>
      rw [bind_of_ok hrun] at hout
      rw [← (hadvances s a s₁ hrun).levelsLeft_eq] at hs
      exact hf a s₁ hs s' hout

theorem nested (hm : Suffices g calls Production.maxHeight m) :
    Suffices g calls h (Parse.nested g m) := by
  intro s hs s' hout
  by_cases hd : g.limit.toNat ≤ s.depth
  · rw [nested_of_le hd] at hout
    cases hout
  · have hd : s.depth < g.limit.toNat := Nat.lt_of_not_le hd
    rw [nested_of_lt hd] at hout
    have hlevel : Production.maxHeight + callsPerLevel * (g.limit.toNat - (s.depth + 1)) ≤
        calls := by
      simp only [ParseState.levelsLeft, callsPerLevel] at hs
      simp only [Production.maxHeight, callsPerLevel]
      omega
    split at hout
    · cases hout
    · next hrun =>
      cases hout
      exact hm { s with depth := s.depth + 1 } hlevel _ hrun

theorem eat (k : TokenKind) : Suffices g calls h (Parse.eat g k) :=
  of_failed fun _ _ _ => eat_failed

theorem literal : Suffices g calls h (Grammar.literal g) := by
  intro s hs s' hout
  cases hlit : Grammar.literal? (s.lookahead g) with
  | none =>
      rw [literal_of_none hlit] at hout
      cases hout
  | some value =>
      rw [literal_of_some hlit] at hout
      exact bind (.eat _) (eat _) (fun _ => pure value) s hs s' hout

theorem expressionExpected : Suffices g calls h (Grammar.expressionExpected g) := by
  intro s _ s' hout
  cases hp : s.pending with
  | nil =>
      rw [expressionExpected_of_nil hp] at hout
      cases hout
  | cons t rest =>
      rw [expressionExpected_of_cons hp] at hout
      cases hout

theorem whileKind {c : Bool} {more : TokenKind → Bool} {f : α → TokenKind → Parse α}
    (hadvances : ∀ a k, more k = true → Advances c (f a k))
    (hf : ∀ a k, more k = true → Suffices g calls h (f a k)) (a : α) :
    Suffices g calls h (Parse.whileKind more (fun a => kind >>= f a) a) := by
  have rounds : ∀ (fuel : List Token) (a : α),
      Suffices g calls h (repeatWhile more (fun a => kind >>= f a) fuel a) := by
    intro fuel
    induction fuel with
    | nil => exact pure
    | cons t fuel ih =>
        intro a s hs s' hout
        rw [repeatWhile_cons] at hout
        split at hout
        · next hm => exact bind (hadvances a s.kind hm) (hf a s.kind hm) ih s hs s' hout
        · cases hout
  exact fun s hs => rounds s.pending a s hs

end Parse.Suffices

theorem Alike.suffices {call : Calls} {hcall hcall'} {calls h : Nat} {b c : Bool} {m m' : Parse α}
    (hsuffices : ∀ p, Suffices g calls p.height (call p))
    (hm : Alike (.ofCalls g call call hcall hcall') h b c m m') :
    Suffices g (calls + 1) h m := by
  have hmeets : ∀ t, ∃ u, (TwoRuns.ofCalls g call call hcall hcall').Meets t u := fun t => ⟨t, rfl⟩
  induction hm with
  | pure a => exact .pure a
  | bind hm _ ihm ihf => exact .bind (hm.advances hmeets) ihm ihf
  | look _ ih => exact fun s hs => ih s.kind s hs
  | literal _ ih =>
      intro s hs
      rw [kind_bind]
      split
      · exact Suffices.literal s hs
      · exact ih s.kind s hs
  | eat k _ ih =>
      intro s hs s' hout
      cases heat : Parse.eat g k s with
      | error e s₁ =>
          cases (bind_of_error heat).symm.trans hout
          exact Suffices.eat k s hs s' heat
      | ok t s₁ =>
          obtain ⟨-, -, hkind, -⟩ := eat_eq_ok.1 heat
          rw [← (Advances.eat k s t s₁ heat).levelsLeft_eq] at hs
          exact ih t t rfl hkind s₁ hs s' ((bind_of_ok heat).symm.trans hout)
  | nested _ ih => exact .nested ih
  | call p hp => exact fun s hs => hsuffices p s (by omega)
  | loop _ _ _ hf ih => exact .whileKind (fun a k hk => (hf a k hk).advances hmeets) ih _
  | noExpression => exact .expressionExpected
  | noOperator _ _ => exact fun s _ s' => nofun
  | noTarget _ _ => exact fun s _ s' => nofun

/-- **The budget is enough.** With `callsPerLevel` calls for each level of nesting that is left,
and as many as the production is high, the calls are not used up. -/
theorem Grammar.run_ne_outOfCalls (calls : Nat) (p : Production) :
    Suffices g calls p.height (run g calls p) := by
  induction calls generalizing p with
  | zero =>
      intro s hs
      have hpos : 0 < p.height := by
        cases p with
        | binary min => cases min <;> decide
        | _ => decide
      omega
  | succ calls ih =>
      exact (body_alike (P := .ofCalls g (run g calls) (run g calls) (run_advances calls)
        (run_advances calls)) p).suffices ih

/-! ## The productions as a parse runs them -/

namespace Grammar

/-- The productions of a parse, with the calls that the parse has. -/
def produce (g : Setting) : Calls :=
  run g (callBudget g.limit)

/-- A budget for the limit does for every production in every state. -/
theorem height_add_le {calls : Nat} (h : callBudget g.limit ≤ calls) (p : Production)
    (s : ParseState) : p.height + callsPerLevel * s.levelsLeft g ≤ calls := by
  have hp := p.height_lt
  simp only [Production.maxHeight] at hp
  simp only [callBudget, callsPerLevel] at h
  simp only [ParseState.levelsLeft, callsPerLevel]
  omega

theorem run_succ_eq {calls : Nat} (h : callBudget g.limit ≤ calls) (p : Production) :
    run g (calls + 1) p = run g calls p := by
  funext s
  rcases run_mono calls p s with ⟨s', hout⟩ | heq
  · exact absurd hout (run_ne_outOfCalls calls p s (height_add_le h p s) s')
  · exact heq.symm

theorem run_eq_produce {calls : Nat} (h : callBudget g.limit ≤ calls) : run g calls = produce g := by
  funext p
  obtain ⟨extra, rfl⟩ := Nat.exists_eq_add_of_le h
  induction extra with
  | zero => rfl
  | succ extra ih => rw [← Nat.add_assoc, run_succ_eq (Nat.le_add_right _ _), ih (Nat.le_add_right _ _)]

/-- **The grammar holds as it stands.** In a parse each production does what its definition says
of the productions that it calls. -/
theorem produce_eq (g : Setting) (p : Production) : produce g p = body g (produce g) p :=
  (run_succ_eq (Nat.le_refl _) p).symm

theorem advances_produce (g : Setting) (p : Production) : Advances true (produce g p) :=
  run_advances _ p

end Grammar

/-- **A parse never uses its calls up.** -/
theorem Program.parse_ne_outOfCalls (s' : ParseState) :
    Program.parse g s ≠ .error .outOfCalls s' := by
  have halike := Grammar.statementsUntil_alike (P := .ofCalls g (Grammar.produce g)
    (Grammar.produce g) (Grammar.advances_produce g) (Grammar.advances_produce g)) (h := 2)
    (b := true) .endOfInput (by decide)
  have hstatements := halike.suffices (Grammar.run_ne_outOfCalls (callBudget g.limit))
  have hparse : Suffices g (callBudget g.limit + 1) 2 (Program.parse g) :=
    .bind (halike.advances fun t => ⟨t, rfl⟩) hstatements fun _ => .pure _
  refine hparse s ?_ s'
  simp only [ParseState.levelsLeft, callBudget, callsPerLevel]
  omega

end LetterLang

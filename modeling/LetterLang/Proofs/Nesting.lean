import LetterLang.Proofs.CorrectPrefix
import LetterLang.Proofs.Failure

/-!
# The limit on nesting bounds the recursion

A parse under a limit has only so many productions open at once, whatever its source is. To say so
of every moment of a parse, and not only of its end, the productions are put under watch: a call
that is out of bounds stops the parse at once, as if its calls were used up.

- `Production.fits`: a call is made within the limit, and below the top level, where only statements
  stand.
- `Parse.watch`: a call fits, and it ends at the depth at which it was made, with a result or
  without. So no level is left that has not been entered, and the depth never falls below zero.
- `Grammar.watched_eq`: the watch never stops a call that fits.
- `parse_stays_within_limit`: the parse under watch is the parse, and it never stops for want of
  calls.
-/

namespace LetterLang

open Parse
open Production (Calls)

variable {g : Setting} {s s' : ParseState} {α β : Type}

/-! ## The watch -/

/-- Whether a production may be called in a state. Only statements stand at the top level. -/
def Production.fits (g : Setting) (p : Production) (s : ParseState) : Bool :=
  s.depth ≤ g.limit.toNat && (p = .statement || 0 < s.depth)

/-- A step that is stopped if it does not start in a fit state, or does not end at the depth at which
it started. -/
def Parse.watch (fits : ParseState → Bool) (m : Parse α) : Parse α := fun s =>
  if fits s ∧ (endState (m s)).depth = s.depth then m s else .error .outOfCalls s

def Grammar.watched (g : Setting) : Nat → Calls
  | 0, _ => throw .outOfCalls
  | calls + 1, p => watch (p.fits g) (body g (watched g calls) p)

def Program.parseWatched (g : Setting) (calls : Nat) : Parse Program :=
  return ⟨← Grammar.statementsUntil (Grammar.watched g calls) .endOfInput⟩

theorem Parse.watch_eq_ok {fits : ParseState → Bool} {m : Parse α} {a : α}
    (h : watch fits m s = .ok a s') : m s = .ok a s' := by
  unfold watch at h
  split at h
  · exact h
  · cases h

theorem Parse.watch_of_fits {fits : ParseState → Bool} {m : Parse α} (hfits : fits s = true)
    (hdepth : (endState (m s)).depth = s.depth) : watch fits m s = m s :=
  if_pos ⟨hfits, hdepth⟩

/-! ## Levels are left again -/

/-- The step ends at the depth at which it starts, with a result or without. -/
def Parse.Balanced (m : Parse α) : Prop :=
  ∀ s, (endState (m s)).depth = s.depth

theorem Parse.Accounts.balanced {c : Bool} {m : Parse α}
    (hm : Accounts g (fun _ => True) c m) : Balanced m :=
  fun s => (hm s fun _ _ => trivial).reaches.leads.depth

/-- The steps that productions run one level deeper. -/
inductive Grammar.Entered (g : Setting) (call : Calls) : {α : Type} → Parse α → Prop
  | statement : Entered g call (kind >>= statementOf g call)
  | assignment : Entered g call (assignmentInside g call)
  | operand : Entered g call (call .unary)
  | new : Entered g call (call .new)

theorem Grammar.run_balanced (calls : Nat) (p : Production) : Balanced (run g calls p) :=
  (run_accounts calls p).balanced

/-- **The level that is left is the one that has been entered**: what is run there ends there,
whatever its outcome. -/
theorem Grammar.Entered.balanced {calls : Nat} {m : Parse α} (hm : Entered g (run g calls) m) :
    Balanced m := by
  have hcalls : ∀ p, Accounts g (TwoRuns.alone g calls fun _ => True).Known true (run g calls p) := by
    rw [TwoRuns.known_alone]
    exact run_accounts calls
  have hinside : ∀ {m : Parse α}, Alike (.alone g calls fun _ => True) Production.maxHeight true true
      m m → Balanced m := by
    intro m halike
    have haccounts := halike.accounts hcalls
    rw [TwoRuns.known_alone] at haccounts
    exact haccounts.balanced
  cases hm with
  | statement => exact hinside (.look statementOf_alike)
  | assignment => exact hinside assignmentInside_alike
  | operand => exact run_balanced calls .unary
  | new => exact run_balanced calls .new

/-! ## Below the top level -/

/-- The two steps do the same below the top level and within the limit. -/
def Parse.SameBelow (g : Setting) (m m' : Parse α) : Prop :=
  ∀ s, 0 < s.depth → s.depth ≤ g.limit.toNat → m s = m' s

namespace Parse.SameBelow

variable {m m' : Parse α} {c : Bool}

theorem bind {f f' : α → Parse β} (hadvances : Advances c m) (hm : SameBelow g m m')
    (hf : ∀ a, SameBelow g (f a) (f' a)) : SameBelow g (m >>= f) (m' >>= f') := by
  intro s hpos hle
  have heq := hm s hpos hle
  cases h : m s with
  | error e s₁ => rw [bind_of_error h, bind_of_error (heq ▸ h)]
  | ok a s₁ =>
      rw [bind_of_ok h, bind_of_ok (heq ▸ h)]
      have hdepth := (hadvances s a s₁ h).depth
      exact hf a s₁ (hdepth ▸ hpos) (hdepth ▸ hle)

theorem nested (hm : SameBelow g m m') : Parse.nested g m = Parse.nested g m' := by
  funext s
  by_cases hd : g.limit.toNat ≤ s.depth
  · rw [nested_of_le hd, nested_of_le hd]
  · have hd : s.depth < g.limit.toNat := Nat.lt_of_not_le hd
    rw [nested_of_lt hd, nested_of_lt hd, hm { s with depth := s.depth + 1 } (Nat.succ_pos _) hd]

end Parse.SameBelow

/-- Loops do the same where their rounds do, and where the rounds keep to such states. -/
theorem Parse.repeatWhile_congr {more : TokenKind → Bool} {step step' : α → Parse α}
    {I : ParseState → Prop} (hstep : ∀ a s, more s.kind = true → I s → step a s = step' a s)
    (hkeeps : ∀ a s b s', more s.kind = true → I s → step a s = .ok b s' → I s')
    (fuel : List Token) (a : α) (hs : I s) :
    repeatWhile more step fuel a s = repeatWhile more step' fuel a s := by
  induction fuel generalizing a s with
  | nil => rfl
  | cons t fuel ih =>
      rw [repeatWhile_cons, repeatWhile_cons]
      by_cases hm : more s.kind = true
      · rw [if_pos hm, if_pos hm]
        have heq := hstep a s hm hs
        cases h : step a s with
        | error e s₁ => rw [bind_of_error h, bind_of_error (heq ▸ h)]
        | ok b s₁ =>
            rw [bind_of_ok h, bind_of_ok (heq ▸ h)]
            exact ih b (hkeeps a s b s₁ hm hs h)
      · rw [if_neg hm, if_neg hm]

theorem Alike.sameBelow {call call' : Calls} {hcall hcall'} {h : Nat} {b c : Bool} {m m' : Parse α}
    (hsame : ∀ p, SameBelow g (call p) (call' p))
    (hm : Alike (.ofCalls g call call' hcall hcall') h b c m m') : SameBelow g m m' := by
  have hmeets : ∀ t, ∃ u, (TwoRuns.ofCalls g call call' hcall hcall').Meets t u :=
    fun t => ⟨t, rfl⟩
  induction hm with
  | pure a => exact fun _ _ _ => rfl
  | bind hm _ ihm ihf => exact ihm.bind (hm.advances hmeets) ihf
  | look _ ih => exact fun s => ih s.kind s
  | literal _ ih =>
      intro s hpos hle
      rw [kind_bind, kind_bind]
      split
      · rfl
      · exact ih s.kind s hpos hle
  | @eat _ _ _ _ f f' k _ ih =>
      intro s hpos hle
      show (Parse.eat g k >>= f) s = (Parse.eat g k >>= f') s
      cases heat : Parse.eat g k s with
      | error e s₁ => rw [bind_of_error heat, bind_of_error heat]
      | ok t s₁ =>
          obtain ⟨-, -, hkind, -⟩ := eat_eq_ok.1 heat
          have hdepth := (Advances.eat k s t s₁ heat).depth
          rw [bind_of_ok heat, bind_of_ok heat]
          exact ih t t rfl hkind s₁ (hdepth ▸ hpos) (hdepth ▸ hle)
  | nested _ ih => exact fun s _ _ => congrFun ih.nested s
  | call p _ => exact hsame p
  | @loop _ _ _ more f f' a _ _ _ hf ih =>
      intro s hpos hle
      refine repeatWhile_congr (I := fun s => 0 < s.depth ∧ s.depth ≤ g.limit.toNat) ?_ ?_
        s.pending a ⟨hpos, hle⟩
      · rintro a s hm ⟨hpos, hle⟩
        exact ih a s.kind hm s hpos hle
      · rintro a s b s' hm ⟨hpos, hle⟩ hround
        have hdepth := ((hf a s.kind hm).advances hmeets s b s' hround).depth
        exact ⟨hdepth ▸ hpos, hdepth ▸ hle⟩
  | noExpression => exact fun _ _ _ => rfl
  | noOperator htu _ =>
      obtain rfl := htu
      exact fun _ _ _ => rfl
  | noTarget htu _ =>
      obtain rfl := htu
      exact fun _ _ _ => rfl

/-! ## The watch never stops a call that fits -/

namespace Grammar

theorem watched_advances (calls : Nat) (p : Production) :
    Advances true (watched g calls p) := by
  induction calls generalizing p with
  | zero => exact .of_fails fun s a s' => throw_eq_ok.1
  | succ calls ih =>
      have halike := body_alike (P := .ofCalls g (watched g calls) (watched g calls) ih ih) p
      exact fun s a s' h => halike.advances (fun t => ⟨t, rfl⟩) s a s' (watch_eq_ok h)

/-- Under watch, a production calls what it calls otherwise, if its own call fits. -/
theorem body_watched {calls : Nat} {p : Production}
    (hcalls : ∀ p, SameBelow g (run g calls p) (watched g calls p)) (hfits : p.fits g s = true) :
    body g (watched g calls) p s = body g (run g calls) p s := by
  simp only [Production.fits, Bool.and_eq_true, Bool.or_eq_true, decide_eq_true_eq] at hfits
  obtain ⟨hle, rfl | hpos⟩ := hfits
  · have hinner : SameBelow g (kind >>= statementOf g (run g calls))
        (kind >>= statementOf g (watched g calls)) := by
      have halike : Alike (.ofCalls g (run g calls) (watched g calls) (run_advances calls)
          (watched_advances calls)) Production.maxHeight true true
          (kind >>= statementOf g (run g calls)) (kind >>= statementOf g (watched g calls)) :=
        .look statementOf_alike
      exact halike.sameBelow hcalls
    exact (congrFun hinner.nested s).symm
  · have halike := body_alike (P := .ofCalls g (run g calls) (watched g calls)
      (run_advances calls) (watched_advances calls)) p
    exact (halike.sameBelow hcalls s hpos hle).symm

/-- **The watch never stops a call that fits.** -/
theorem watched_eq (calls : Nat) (p : Production) (hfits : p.fits g s = true) :
    watched g calls p s = run g calls p s := by
  induction calls generalizing p s with
  | zero => rfl
  | succ calls ih =>
      have hcalls : ∀ p, SameBelow g (run g calls p) (watched g calls p) := by
        intro p s hpos hle
        refine (ih p ?_).symm
        simp [Production.fits, hpos, hle]
      have hbody := body_watched hcalls hfits
      have hdepth : (endState (body g (watched g calls) p s)).depth = s.depth := by
        rw [hbody]
        exact run_balanced (calls + 1) p s
      exact (watch_of_fits hfits hdepth).trans hbody

end Grammar

/-! ## The whole parse -/

theorem Grammar.statementsUntil_watched (calls : Nat) (stop : TokenKind) (hdepth : s.depth = 0) :
    statementsUntil (watched g calls) stop s = statementsUntil (run g calls) stop s := by
  have hcall : ∀ s : ParseState, s.depth = 0 →
      watched g calls .statement s = run g calls .statement s := by
    intro s hs
    exact watched_eq calls .statement (by simp [Production.fits, hs])
  refine bind_eq_of_eq (repeatWhile_congr (I := fun s => s.depth = 0) ?_ ?_ s.pending [] hdepth)
  · intro items s _ hs
    exact bind_eq_of_eq (hcall s hs)
  · intro items s items' s' _ hs hround
    obtain ⟨statement, s₁, hok, hround⟩ := bind_eq_ok.1 hround
    obtain ⟨-, rfl⟩ := pure_eq_ok.1 hround
    exact ((watched_advances calls .statement s statement s₁ hok).depth).trans hs

/-- **The limit bounds the recursion.** There is a number of calls for each level of nesting such
that no parse has more of them open at once, at no moment and whatever the source is. The parse
under watch is the parse itself, so every call is made within the limit. Entering a level keeps to
the limit, and the level that is left is the one that has been entered. -/
theorem parse_stays_within_limit : ∃ perLevel : Nat, ∀ (limit : UInt32) (source : String),
    let stream := TokenStream.ofSource source
    let g := stream.setting limit
    let calls := perLevel * (limit.toNat + 1)
    (Program.parseWatched g calls stream.start = Program.parse g stream.start ∧
      ∀ s, Program.parse g stream.start ≠ .error .outOfCalls s) ∧
    (∀ s u s', enter g s = .ok u s' → s'.depth = s.depth + 1 ∧ s'.depth ≤ limit.toNat) ∧
    (∀ p, Balanced (Grammar.run g calls p)) ∧
    ∀ {α : Type} (m : Parse α), Grammar.Entered g (Grammar.run g calls) m → Balanced m := by
  refine ⟨callsPerLevel, fun limit source => ⟨⟨?_, ?_⟩, ?_, ?_, ?_⟩⟩
  · exact bind_eq_of_eq (Grammar.statementsUntil_watched _ _ rfl)
  · exact Program.parse_ne_outOfCalls
  · intro s u s' h
    obtain ⟨hlt, rfl⟩ := enter_eq_ok.1 h
    exact ⟨rfl, hlt⟩
  · exact Grammar.run_balanced _
  · exact fun m hm => hm.balanced

end LetterLang

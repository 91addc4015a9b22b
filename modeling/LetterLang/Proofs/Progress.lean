import LetterLang.Proofs.Descent
import LetterLang.Proofs.ScannedTokens

/-!
# Progress

A production that succeeds has consumed a token, and between a call of a production and the next
call of the same one inside it a token is consumed too. So a parse comes to an end on every source,
and it does so by its tokens alone: neither the limit on nesting nor the bounds on loops and on
calls are what ends it.

- `Grammar.Enters`: a production that is entered in one state calls another one in another state.
  It is seen by a trap that is laid at the call.
- `Grammar.Entry.size`: what falls with every call. So no chain of calls is endless, and so many
  calls are enough for a production (`Grammar.run_eq_of_size_lt`).
- `Parse.Unrolls`: what a loop does that is not bounded, round by round. The loops of the grammar
  are listed as `Grammar.Loop`.
- `productions_progress`: all of this together, and the parse of a source.
-/

namespace LetterLang

open Parse
open Production (Calls)

variable {g : Setting} {s s' : ParseState} {n calls : Nat} {α β : Type}

/-! ## Calls that a production makes -/

deriving instance DecidableEq for ParseState

namespace Grammar

abbrev Entry :=
  Production × ParseState

/-- The productions of a parse, with a trap at one entry: to make this call stops the parse, as if
its calls were used up. -/
def trap (g : Setting) (e : Entry) : Calls := fun p s =>
  if (p, s) = e then .error .outOfCalls s else produce g p s

/-- The production entered at `e` calls the one of `e'` in the state of `e'`: it runs into a trap
there. -/
def Enters (g : Setting) (e e' : Entry) : Prop :=
  ∃ s, body g (trap g e') e.1 e.2 = .error .outOfCalls s

theorem produce_ne_outOfCalls (p : Production) (s s' : ParseState) :
    produce g p s ≠ .error .outOfCalls s' :=
  run_ne_outOfCalls _ p s (height_add_le (Nat.le_refl _) p s) s'

theorem advances_trap (e : Entry) (p : Production) : Advances true (trap g e p) := by
  intro s a s' h
  unfold trap at h
  split at h
  · cases h
  · exact advances_produce g p s a s' h

/-- A production consumes tokens and gives none back, whether it succeeds or stops. -/
theorem produce_eats (p : Production) (s : ParseState) :
    ∃ n, s.Eats g n (endState (produce g p s)) ∧ ∀ a s', produce g p s = .ok a s' → 0 < n := by
  have hend : EndsFrom g (fun _ => True) true s (produce g p s) :=
    run_accounts _ p s fun _ _ => trivial
  cases h : produce g p s with
  | ok a s' =>
      rw [h] at hend
      obtain ⟨n, heats, hpos⟩ := ParseState.Reaches.eats hend
      exact ⟨n, heats, fun _ _ _ => hpos rfl⟩
  | error e s' =>
      rw [h] at hend
      obtain ⟨n, heats, -⟩ := hend.1.eats
      exact ⟨n, heats, nofun⟩

/-- **A call that is not made plays no part**, whatever it would have done. -/
theorem body_eq_of_not_enters {e e' : Entry} {call' : Calls} (hcall : ∀ p, Advances true (call' p))
    (hsame : ∀ p s, (p, s) ≠ e' → call' p s = produce g p s) (h : ¬ Enters g e e') :
    body g call' e.1 e.2 = produce g e.1 e.2 := by
  have hagrees : ∀ {call' : Calls}, (∀ p, Advances true (call' p)) →
      (∀ p s, (p, s) ≠ e' → call' p s = produce g p s) →
      body g (trap g e') e.1 e.2 = body g call' e.1 e.2 := by
    intro call' hcall hsame
    have htrap : ∀ p, Agrees (trap g e' p) (call' p) := by
      intro p s
      unfold trap
      split
      · exact .inl ⟨s, rfl⟩
      · next hne => exact .inr (hsame p s hne).symm
    have halike := body_alike (P := .ofCalls g (trap g e') call' (advances_trap e') hcall) e.1
    exact (halike.agrees htrap e.2).resolve_left h
  rw [produce_eq, ← hagrees hcall hsame]
  exact hagrees (advances_produce g) fun _ _ _ => rfl

/-- **Calls descend.** Tokens are consumed before a call is made, or the call is one of a lower
production; and no token has come back. -/
theorem Enters.eats {e e' : Entry} (h : Enters g e e') :
    ∃ n, e.2.Eats g n e'.2 ∧ (0 < n ∨ e'.1.rank < e.1.rank) := by
  obtain ⟨s, hs⟩ := h
  have hdescends : Descends g (trap g e') e.1.rank (body g (produce g) e.1)
      (body g (trap g e') e.1) :=
    body_descends (advances_trap e') e.1
  rcases hdescends e.2 with heq | ⟨n, q, s', heats, hrank, hne⟩
  · rw [hs, ← produce_eq] at heq
    exact absurd heq (produce_ne_outOfCalls e.1 e.2 s)
  · -- Only at the trap is a call not the one of the parse.
    have htrap : (q, s') = e' := Decidable.byContradiction fun hne' => hne (if_neg hne').symm
    subst htrap
    exact ⟨n, heats, hrank⟩

theorem eats_of_transGen {e e' : Entry} (h : Relation.TransGen (Enters g) e e') :
    ∃ n, e.2.Eats g n e'.2 ∧ (0 < n ∨ e'.1.rank < e.1.rank) := by
  induction h with
  | single h => exact h.eats
  | tail _ h ih =>
      obtain ⟨n, heats, hrank⟩ := ih
      obtain ⟨n', heats', hrank'⟩ := h.eats
      exact ⟨n + n', heats.trans heats', by omega⟩

/-! ## No chain of calls is endless -/

/-- How many calls an entry may need: a round of all ranks for each token that is left. -/
def Entry.size (e : Entry) : Nat :=
  Production.ranks * e.2.pending.length + e.1.rank

theorem Entry.size_lt {p q : Production} (h : s.Eats g n s') (hrank : 0 < n ∨ q.rank < p.rank) :
    Entry.size (q, s') < Entry.size (p, s) := by
  have hlength := h.length_eq
  have hq := q.rank_lt
  simp only [Entry.size, Production.ranks] at hq ⊢
  omega

theorem wellFounded_enters (g : Setting) : WellFounded fun e' e => Enters g e e' := by
  have hsub : Subrelation (fun e' e => Enters g e e') (InvImage (· < ·) Entry.size) := by
    intro e' e h
    obtain ⟨n, heats, hrank⟩ := h.eats
    exact Entry.size_lt heats hrank
  exact hsub.wf (InvImage.wf Entry.size Nat.lt_wfRel.wf)

/-- **The tokens that are left bound the calls.** With more calls than the size of its entry, a
production does what it does in the parse. -/
theorem run_eq_of_size_lt {p : Production} (h : Entry.size (p, s) < calls) :
    run g calls p s = produce g p s := by
  induction calls generalizing p s with
  | zero => exact absurd h (Nat.not_lt_zero _)
  | succ calls ih =>
      rw [produce_eq]
      have hdescends : Descends g (run g calls) p.rank (body g (produce g) p)
          (body g (run g calls) p) :=
        body_descends (run_advances calls) p
      rcases hdescends s with heq | ⟨n, q, s', heats, hrank, hne⟩
      · exact heq.symm
      · have hsize := Entry.size_lt heats hrank
        exact absurd (ih (by omega)).symm hne

end Grammar

def Program.parseWithin (g : Setting) (calls : Nat) : Parse Program :=
  return ⟨← Grammar.statementsUntil (Grammar.run g calls) .endOfInput⟩

theorem Program.parseWithin_eq (h : Production.ranks * (s.pending.length + 1) ≤ calls) :
    parseWithin g calls s = Program.parse g s := by
  have halike : Alike (Grammar.besides g (Grammar.run g calls) (Grammar.run_advances calls)) 2 true
      false (Grammar.statementsUntil (Grammar.produce g) .endOfInput)
      (Grammar.statementsUntil (Grammar.run g calls) .endOfInput) :=
    Grammar.statementsUntil_alike .endOfInput (by decide)
  rcases halike.descends s with heq | ⟨n, q, s', heats, -, hne⟩
  · exact bind_eq_of_eq heq.symm
  · have hlength := heats.length_eq
    have hq := q.rank_lt
    have hsize : Grammar.Entry.size (q, s') < calls := by
      simp only [Grammar.Entry.size, Production.ranks] at h hq ⊢
      omega
    exact absurd (Grammar.run_eq_of_size_lt hsize).symm hne

/-! ## Loops end -/

namespace Parse

/-- A loop that is not bounded ends with an outcome after a number of rounds: it stops where the
next kind does not call for a round, or where a round stops. -/
inductive Unrolls (more : TokenKind → Bool) (round : α → Parse α) :
    Nat → α → ParseState → EStateM.Result Stop ParseState α → Prop
  | done {a s} : more s.kind = false → Unrolls more round 0 a s (.ok a s)
  | stop {a s e s'} : more s.kind = true → round a s = .error e s' →
      Unrolls more round 0 a s (.error e s')
  | again {n a s b s' r} : more s.kind = true → round a s = .ok b s' →
      Unrolls more round n b s' r → Unrolls more round (n + 1) a s r

/-- A loop that makes progress ends after at most as many rounds as tokens are left. -/
theorem exists_unrolls {more : TokenKind → Bool} {round : α → Parse α} {a : α}
    (hend : more .endOfInput = false) (hp : Progress more round) :
    ∃ n ≤ s.pending.length, Unrolls more round n a s (whileKind more round a s) := by
  induction hn : s.pending.length using Nat.strongRecOn generalizing a s with
  | ind k ih =>
      rw [whileKind_eq hend hp]
      by_cases hm : more s.kind = true
      · rw [if_pos hm]
        cases hround : round a s with
        | error e s' =>
            rw [bind_of_error hround]
            exact ⟨0, Nat.zero_le _, .stop hm hround⟩
        | ok b s' =>
            rw [bind_of_ok hround]
            have hlt := hp a s b s' hm hround
            obtain ⟨n, hle, hunrolls⟩ := ih _ (hn ▸ hlt) (a := b) rfl
            exact ⟨n + 1, by omega, .again hm hround hunrolls⟩
      · rw [if_neg hm]
        exact ⟨0, Nat.zero_le _, .done (by simpa using hm)⟩

end Parse

namespace Grammar

/-- The loops of the grammar. A part of the grammar that loops does a first step, then rounds while
the next kind calls for more, and makes its result of what they leave. -/
inductive Loop (g : Setting) (call : Calls) : {α β : Type} → Parse β → Parse α →
    (TokenKind → Bool) → (α → Parse α) → (α → β) → Prop
  | statements (stop : TokenKind) : Loop g call (statementsUntil call stop) (pure [])
      (fun k => k ≠ stop && k ≠ .endOfInput) (fun items => return (← call .statement) :: items)
      List.reverse
  | declarations : Loop g call (commaSeparated g (call .declaration))
      (return [← call .declaration]) (· = .delimiter .comma)
      (fun items => do delimiter g .comma; return (← call .declaration) :: items) List.reverse
  | parameters : Loop g call (commaSeparated g (identifier g)) (return [← identifier g])
      (· = .delimiter .comma)
      (fun items => do delimiter g .comma; return (← identifier g) :: items) List.reverse
  | arguments : Loop g call (commaSeparated g (call .assignment))
      (return [← call .assignment]) (· = .delimiter .comma)
      (fun items => do delimiter g .comma; return (← call .assignment) :: items) List.reverse
  | operators (min : BinaryLevel) :
      Loop g call (binary g call min) (call .unary) min.admits (binaryStep g call) id
  | members : Loop g call (member g call) (call .primary) startsAccess (memberStep g call) id
  | calls (callee : Expr) : Loop g call (callTail call callee)
      (return .call callee (← call .arguments)) (· = .delimiter .openParen)
      (fun callee => return .call callee (← call .arguments)) id

variable {call : Calls} {part : Parse β} {first : Parse α} {more : TokenKind → Bool}
  {round : α → Parse α} {last : α → β}

namespace Loop

theorem part_eq (h : Loop g call part first more round last) :
    part = do return last (← whileKind more round (← first)) := by
  cases h with
  | statements stop => rfl
  | declarations => simp only [commaSeparated, bind_assoc, pure_bind]
  | parameters => simp only [commaSeparated, bind_assoc, pure_bind]
  | arguments => simp only [commaSeparated, bind_assoc, pure_bind]
  | operators min => simp only [binary, id, bind_pure]
  | members => simp only [member, id, bind_pure]
  | calls callee => simp only [callTail, id, bind_assoc, pure_bind, bind_pure]

theorem more_endOfInput (h : Loop g call part first more round last) :
    more .endOfInput = false := by
  cases h with
  | statements stop => simp
  | _ => rfl

theorem progress (hcall : ∀ p, Advances true (call p))
    (h : Loop g call part first more round last) : Progress more round := by
  have hcomma : ∀ {γ : Type} {item : Parse γ}, Advances true item → ∀ items : List γ,
      Advances true (do delimiter g .comma; return (← item) :: items) := fun hitem items =>
    (Advances.delimiter _).bind fun _ => hitem.bind fun _ => .pure _
  cases h with
  | statements stop => exact .of_advances fun items => (hcall _).bind fun _ => .pure _
  | declarations => exact .of_advances (hcomma (hcall _))
  | parameters => exact .of_advances (hcomma .identifier)
  | arguments => exact .of_advances (hcomma (hcall _))
  | operators min => exact binaryStep_progress hcall min
  | members => exact .of_advances (advances_memberStep hcall)
  | calls callee => exact .of_advances fun callee => (hcall _).bind fun _ => .pure _

end Loop

end Grammar

/-! ## Sources -/

/-- The parse of a source never uses its calls up. -/
theorem TokenStream.parse_ne_outOfCalls (limit : UInt32) (source : String) (s : ParseState) :
    (ofSource source).parse limit ≠ .error .outOfCalls s := by
  rcases parse_fault_or_outcome source with ⟨e, hstream, -⟩ | ⟨hstart, -⟩
  · rw [hstream]
    exact nofun
  · rw [parse_eq hstart]
    exact Program.parse_ne_outOfCalls s

/-- The parse of a stream consumes at most its tokens, one after another. -/
theorem TokenStream.parse_eats (stream : TokenStream) (limit : UInt32) :
    ∃ n ≤ stream.tokens.length,
      stream.start.Eats (stream.setting limit) n (endState (stream.parse limit)) := by
  obtain ⟨n, heats, -⟩ := (stream.reaches_parse limit).eats
  exact ⟨n, heats.length_eq ▸ Nat.le_add_right _ _, heats⟩

/-- **Progress.** In every state a production does nothing to its tokens but consume them, and it
consumes at least one if it succeeds. Each call that it makes lies behind a token that it has
consumed, or is a call of a lower production. So a production is not entered again inside itself
before a token has been consumed, and no chain of calls is endless. The tokens that are left bound
the calls, and they bound the rounds of every loop, which ends although nothing else bounds it. So
the parse of a source ends whatever the limit on nesting is, and it consumes at most the tokens of
the source. -/
theorem productions_progress :
    (∀ g : Setting,
      (∀ n (s s' : ParseState), s.Eats g n s' → ∃ used, used.length = n ∧
        s.pending = used ++ s'.pending ∧ s'.consumed = used.reverse ++ s.consumed) ∧
      (∀ p s, ∃ n, s.Eats g n (endState (Grammar.produce g p s)) ∧
        ∀ a s', Grammar.produce g p s = .ok a s' → 0 < n) ∧
      (∀ p q s s', Grammar.Enters g (p, s) (q, s') →
        ∃ n, s.Eats g n s' ∧ (0 < n ∨ q.rank < p.rank)) ∧
      (∀ p s s', Relation.TransGen (Grammar.Enters g) (p, s) (p, s') →
        ∃ n, 0 < n ∧ s.Eats g n s') ∧
      (WellFounded fun e' e => Grammar.Enters g e e') ∧
      (∀ calls p s, Grammar.Entry.size (p, s) < calls →
        Grammar.run g calls p s = Grammar.produce g p s ∧
          ∀ s', Grammar.run g calls p s ≠ .error .outOfCalls s') ∧
      ∀ {α β : Type} {part : Parse β} {first : Parse α} {more : TokenKind → Bool}
        {round : α → Parse α} {last : α → β},
        Grammar.Loop g (Grammar.produce g) part first more round last →
          part = (do return last (← whileKind more round (← first))) ∧
            ∀ a s, ∃ n ≤ s.pending.length, Unrolls more round n a s (whileKind more round a s)) ∧
    ∀ (limit : UInt32) (source : String),
      let stream := TokenStream.ofSource source
      let g := stream.setting limit
      (∀ calls, Production.ranks * (stream.tokens.length + 1) ≤ calls →
        Program.parseWithin g calls stream.start = Program.parse g stream.start) ∧
      (∀ s, stream.parse limit ≠ .error .outOfCalls s) ∧
      ∃ n ≤ stream.tokens.length, stream.start.Eats g n (endState (stream.parse limit)) := by
  constructor
  · intro g
    refine ⟨fun n s s' h => ?_, Grammar.produce_eats, fun p q s s' h => h.eats,
      fun p s s' h => ?_, Grammar.wellFounded_enters g, fun calls p s h => ?_,
      fun hloop => ⟨hloop.part_eq, fun a s => ?_⟩⟩
    · obtain ⟨used, hlength, hpending, hconsumed, -⟩ := ParseState.eats_iff.1 h
      exact ⟨used, hlength, hpending, hconsumed⟩
    · obtain ⟨n, heats, hrank⟩ := Grammar.eats_of_transGen h
      exact ⟨n, hrank.resolve_right (Nat.lt_irrefl _), heats⟩
    · rw [Grammar.run_eq_of_size_lt h]
      exact ⟨rfl, Grammar.produce_ne_outOfCalls p s⟩
    · exact exists_unrolls hloop.more_endOfInput (hloop.progress (Grammar.advances_produce g))
  · intro limit source
    exact ⟨fun calls h => Program.parseWithin_eq h, TokenStream.parse_ne_outOfCalls limit source,
      TokenStream.parse_eats _ limit⟩

/-- An expression in parentheses is entered inside another expression, behind the parenthesis. -/
theorem productions_progress_parentheses :
    let g : Setting := ⟨8, .complete 3⟩
    let opening : Token := ⟨.delimiter .openParen, "(", ⟨0, 1⟩⟩
    let rest : List Token := [⟨.identifier, "a", ⟨1, 1⟩⟩, ⟨.delimiter .closeParen, ")", ⟨2, 1⟩⟩]
    let s : ParseState := ⟨opening :: rest, [], 0⟩
    let s' : ParseState := ⟨rest, [opening], 1⟩
    Relation.TransGen (Grammar.Enters g) (.assignment, s) (.assignment, s') ∧
      ∃ n, 0 < n ∧ s.Eats g n s' := by
  intro g opening rest s s'
  let inside : ParseState := ⟨opening :: rest, [], 1⟩
  have hbinary : Grammar.Enters g (.assignment, s) (.binary .loosest, inside) := ⟨_, rfl⟩
  have hunary : Grammar.Enters g (.binary .loosest, inside) (.unary, inside) := ⟨_, rfl⟩
  have hcallMember : Grammar.Enters g (.unary, inside) (.callMember, inside) := ⟨_, rfl⟩
  have hmember : Grammar.Enters g (.callMember, inside) (.member, inside) := ⟨_, rfl⟩
  have hprimary : Grammar.Enters g (.member, inside) (.primary, inside) := ⟨_, rfl⟩
  have hagain : Grammar.Enters g (.primary, inside) (.assignment, s') := ⟨_, rfl⟩
  have hchain : Relation.TransGen (Grammar.Enters g) (.assignment, s) (.assignment, s') :=
    .tail (.tail (.tail (.tail (.tail (.single hbinary) hunary) hcallMember) hmember) hprimary)
      hagain
  exact ⟨hchain, (productions_progress.1 g).2.2.2.1 .assignment s s' hchain⟩

end LetterLang

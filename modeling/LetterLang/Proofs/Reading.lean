import LetterLang.Parser
import LetterLang.Proofs.Lexeme

/-!
# What parsing steps read

A state of a parse is described by the lexemes that it faces and the levels of nesting that it has
left (`ParseState.Faces`). Two judgements about a step are stated in these terms.

- `Parse.Yields g m R`: whenever `m` gives a result, it has read from some lexemes `i` up to a rest
  `k`, with `R n i a k`. Soundness of the parser is a family of these.
- `Parse.Accepts g m n i a k`: facing `i` with `n` levels left, `m` does give the result `a` and
  then faces `k`. Completeness of the parser is a family of these.

The loops are treated once here: `Parse.whileKind_invariant` for the first judgement and
`Parse.Loops` for the second.
-/

namespace LetterLang

def Setting.Complete (g : Setting) : Prop :=
  ∃ offset, g.ending = .complete offset

/-- The state faces the lexemes `i` and has `n` levels of nesting left. No lexemes are left only at
the end of a source that could be scanned to its end. -/
structure ParseState.Faces (g : Setting) (n : Nat) (i : List Lexeme) (s : ParseState) : Prop where
  lexemes : s.pending.map Token.lexeme = i
  levels : s.depth + n = g.limit.toNat
  spelled : ∀ t ∈ i, Lexeme.Spelled t
  complete : i = [] → g.Complete

variable {g : Setting} {n : Nat} {i j k : List Lexeme} {s s' : ParseState} {α β : Type}

namespace ParseState.Faces

theorem kind_eq (h : s.Faces g n i) : s.kind = Lexeme.firstKind i := by
  rw [← h.lexemes]
  unfold ParseState.kind
  cases s.pending <;> rfl

theorem length_eq (h : s.Faces g n i) : s.pending.length = i.length := by
  rw [← h.lexemes, List.length_map]

theorem enter (h : s.Faces g (n + 1) i) : Faces g n i { s with depth := s.depth + 1 } where
  lexemes := h.lexemes
  levels := by have := h.levels; simp only; omega
  spelled := h.spelled
  complete := h.complete

theorem leave (h : s.Faces g n i) (hn : n < g.limit.toNat) : (Parse.leave s).Faces g (n + 1) i where
  lexemes := h.lexemes
  levels := by
    have := h.levels
    simp only [Parse.leave]
    omega
  spelled := h.spelled
  complete := h.complete

end ParseState.Faces

namespace Parse

/-! ## Results of composed steps -/

theorem bind_eq_ok {m : Parse α} {f : α → Parse β} {b : β} :
    (m >>= f) s = .ok b s' ↔ ∃ a s₁, m s = .ok a s₁ ∧ f a s₁ = .ok b s' := by
  show EStateM.bind m f s = .ok b s' ↔ _
  unfold EStateM.bind
  constructor
  · intro h
    split at h
    · exact ⟨_, _, ‹_›, h⟩
    · cases h
  · rintro ⟨a, s₁, hm, hf⟩
    rw [hm]
    exact hf

theorem map_eq_ok {m : Parse α} {f : α → β} {b : β} :
    (f <$> m) s = .ok b s' ↔ ∃ a, m s = .ok a s' ∧ f a = b := by
  show EStateM.map f m s = .ok b s' ↔ _
  unfold EStateM.map
  constructor
  · intro h
    split at h
    · cases h
      exact ⟨_, ‹_›, rfl⟩
    · cases h
  · rintro ⟨a, hm, rfl⟩
    rw [hm]

theorem discard_eq_ok {m : Parse α} {u : PUnit} :
    (discard m) s = .ok u s' ↔ ∃ a, m s = .ok a s' := by
  show (Function.const α PUnit.unit <$> m) s = .ok u s' ↔ _
  rw [map_eq_ok]
  simp

theorem pure_eq_ok {a b : α} : (pure a : Parse α) s = .ok b s' ↔ a = b ∧ s = s' := by
  show EStateM.Result.ok a s = .ok b s' ↔ _
  simp

theorem throw_eq_ok {e : Stop} {b : α} : (throw e : Parse α) s = .ok b s' ↔ False := by
  show EStateM.Result.error e s = .ok b s' ↔ _
  simp

theorem fail_eq_ok {e : SyntaxError} {b : α} : (fail e : Parse α) s = .ok b s' ↔ False :=
  throw_eq_ok

theorem kind_eq_ok {k : TokenKind} : kind s = .ok k s' ↔ s.kind = k ∧ s = s' := by
  show EStateM.Result.ok s.kind s = .ok k s' ↔ _
  simp

theorem unexpected_eq_ok {expected : Expectation} {b : α} :
    (unexpected g expected : Parse α) s = .ok b s' ↔ False := by
  obtain ⟨pending, consumed, depth⟩ := s
  cases pending <;> exact fail_eq_ok

theorem unexpected_of_cons {expected : Expectation} {t : Token} {rest : List Token}
    (h : s.pending = t :: rest) :
    (unexpected g expected : Parse α) s =
      .error (.failed (.grammar (.unexpectedToken t.text expected t.span))) s := by
  obtain ⟨pending, consumed, depth⟩ := s
  obtain rfl : pending = t :: rest := h
  rfl

theorem eat_of_nil {k : TokenKind} (h : s.pending = []) :
    eat g k s = .error (.failed (.grammar (.unexpectedEnd (.token k) g.ending.offset))) s := by
  obtain ⟨pending, consumed, depth⟩ := s
  obtain rfl : pending = [] := h
  rfl

theorem eat_of_ne {k : TokenKind} {t : Token} {rest : List Token} (h : s.pending = t :: rest)
    (hk : t.kind ≠ k) :
    eat g k s = .error (.failed (.grammar (.unexpectedToken t.text (.token k) t.span))) s := by
  obtain ⟨pending, consumed, depth⟩ := s
  obtain rfl : pending = t :: rest := h
  show (if t.kind = k then _ else unexpected g (.token k) : Parse Token) _ = _
  rw [if_neg hk]
  exact unexpected_of_cons rfl

theorem eat_of_fault {t : Token} {e : ScanError} (h : s.pending = [t])
    (he : g.ending = .fault e) : eat g t.kind s = .error (.failed (.scan e)) s := by
  obtain ⟨pending, consumed, depth⟩ := s
  obtain rfl : pending = [t] := h
  show (if t.kind = t.kind then _ else _ : Parse Token) _ = _
  rw [if_pos rfl, he]
  rfl

theorem eat_of_cons {t : Token} {rest : List Token} (h : s.pending = t :: rest)
    (hrest : rest = [] → g.Complete) :
    eat g t.kind s = .ok t { s with pending := rest, consumed := t :: s.consumed } := by
  obtain ⟨pending, consumed, depth⟩ := s
  obtain rfl : pending = t :: rest := h
  show (if t.kind = t.kind then _ else _ : Parse Token) _ = _
  rw [if_pos rfl]
  cases rest with
  | nil =>
      obtain ⟨offset, he⟩ := hrest rfl
      rw [he]
      rfl
  | cons u rest => rfl

theorem complete_or_fault (g : Setting) : g.Complete ∨ ∃ e, g.ending = .fault e := by
  cases he : g.ending with
  | complete offset => exact .inl ⟨offset, he⟩
  | fault e => exact .inr ⟨e, rfl⟩

/-- Consuming a token succeeds on a token of the right kind, unless what follows it cannot be
scanned. -/
theorem eat_eq_ok {expected : TokenKind} {t : Token} :
    eat g expected s = .ok t s' ↔
      ∃ rest, s.pending = t :: rest ∧ t.kind = expected ∧
        (rest = [] → g.Complete) ∧
        s' = { s with pending := rest, consumed := t :: s.consumed } := by
  constructor
  · intro h
    cases hp : s.pending with
    | nil =>
        rw [eat_of_nil hp] at h
        cases h
    | cons t' rest =>
        by_cases hk : t'.kind = expected
        · subst hk
          by_cases hrest : rest = [] → g.Complete
          · rw [eat_of_cons hp hrest] at h
            cases h
            exact ⟨rest, rfl, rfl, hrest, rfl⟩
          · obtain ⟨rfl, hnot⟩ := Classical.not_imp.1 hrest
            obtain ⟨e, he⟩ := (complete_or_fault g).resolve_left hnot
            rw [eat_of_fault hp he] at h
            cases h
        · rw [eat_of_ne hp hk] at h
          cases h
  · rintro ⟨rest, hp, rfl, hrest, rfl⟩
    exact eat_of_cons hp hrest

theorem enter_eq_ok {u : Unit} :
    enter g s = .ok u s' ↔ s.depth < g.limit.toNat ∧ s' = { s with depth := s.depth + 1 } := by
  show (if g.limit.toNat ≤ s.depth then _ else _ : Parse Unit) s = _ ↔ _
  by_cases hd : g.limit.toNat ≤ s.depth
  · rw [if_pos hd]
    constructor
    · intro h
      exact (fail_eq_ok.1 h).elim
    · rintro ⟨hlt, -⟩
      omega
  · rw [if_neg hd]
    show EStateM.Result.ok () _ = _ ↔ _
    constructor
    · intro h
      cases h
      exact ⟨by omega, rfl⟩
    · rintro ⟨-, rfl⟩
      rfl

theorem nested_eq_ok {m : Parse α} {a : α} :
    nested g m s = .ok a s' ↔
      s.depth < g.limit.toNat ∧
        ∃ s₁, m { s with depth := s.depth + 1 } = .ok a s₁ ∧ s' = leave s₁ := by
  refine bind_eq_ok.trans ?_
  constructor
  · rintro ⟨_, s₁, he, h⟩
    obtain ⟨hd, rfl⟩ := enter_eq_ok.1 he
    refine ⟨hd, ?_⟩
    split at h
    · next s₂ hm =>
      cases h
      exact ⟨s₂, hm, rfl⟩
    · cases h
  · rintro ⟨hd, s₁, hm, rfl⟩
    refine ⟨(), _, enter_eq_ok.2 ⟨hd, rfl⟩, ?_⟩
    simp only [hm]

/-! ## Steps that give a result -/

/-- Whenever the step gives a result, it has read from lexemes `i` up to a rest `k` with
`R n i a k`. -/
def Yields (g : Setting) (m : Parse α) (R : Nat → List Lexeme → α → List Lexeme → Prop) : Prop :=
  ∀ {n i s a s'}, s.Faces g n i → m s = .ok a s' → ∃ k, s'.Faces g n k ∧ R n i a k

theorem eat_yields (expected : TokenKind) :
    Yields g (eat g expected) fun _ i t k => i = t.lexeme :: k ∧ t.lexeme.1 = expected ∧
      t.lexeme.Spelled := by
  intro n i s t s' hs h
  obtain ⟨rest, hp, hk, hc, rfl⟩ := eat_eq_ok.1 h
  have hi : i = t.lexeme :: rest.map Token.lexeme := by
    rw [← hs.lexemes, hp, List.map_cons]
  refine ⟨rest.map Token.lexeme, ⟨rfl, hs.levels, ?_, ?_⟩, hi, hk, ?_⟩
  · intro u hu
    exact hs.spelled u (hi ▸ List.mem_cons_of_mem _ hu)
  · intro h
    exact hc (List.map_eq_nil_iff.1 h)
  · exact hs.spelled _ (hi ▸ List.mem_cons_self)

theorem delimiter_yields (d : Delimiter) :
    Yields g (delimiter g d) fun _ i _ k => i = Lexeme.delimiter d :: k := by
  intro n i s u s' hs h
  obtain ⟨t, h⟩ := discard_eq_ok.1 h
  obtain ⟨k, hk, rfl, ht, hsp⟩ := eat_yields _ hs h
  exact ⟨k, hk, by rw [hsp.eq_delimiter ht]⟩

theorem keyword_yields (w : Keyword) :
    Yields g (keyword g w) fun _ i _ k => i = Lexeme.keyword w :: k := by
  intro n i s u s' hs h
  obtain ⟨t, h⟩ := discard_eq_ok.1 h
  obtain ⟨k, hk, rfl, ht, hsp⟩ := eat_yields _ hs h
  exact ⟨k, hk, by rw [hsp.eq_keyword ht]⟩

theorem identifier_yields :
    Yields g (identifier g) fun _ i name k => i = Lexeme.identifier name :: k := by
  intro n i s name s' hs h
  obtain ⟨t, s₁, h₁, h⟩ := bind_eq_ok.1 h
  obtain ⟨rfl, rfl⟩ := pure_eq_ok.1 h
  obtain ⟨k, hk, rfl, ht, -⟩ := eat_yields _ hs h₁
  have hlex : t.lexeme = Lexeme.identifier t.text := Prod.ext ht rfl
  exact ⟨k, hk, by rw [hlex]⟩

theorem nested_yields {m : Parse α} {R : Nat → List Lexeme → α → List Lexeme → Prop}
    (hm : Yields g m R) :
    Yields g (nested g m) fun n i a k => ∃ n', n = n' + 1 ∧ R n' i a k := by
  intro n i s a s' hs h
  obtain ⟨hd, s₁, h₁, rfl⟩ := nested_eq_ok.1 h
  have hl := hs.levels
  obtain ⟨n, rfl⟩ : ∃ n', n = n' + 1 := ⟨n - 1, by omega⟩
  obtain ⟨k, hk, hr⟩ := hm hs.enter h₁
  exact ⟨k, hk.leave (by omega), n, rfl, hr⟩

theorem repeatWhile_cons {more : TokenKind → Bool} {step : α → Parse α} {t : Token}
    {fuel : List Token} {a : α} :
    repeatWhile more step (t :: fuel) a s =
      (if more s.kind = true then step a >>= repeatWhile more step fuel else pure a : Parse α) s :=
  rfl

/-- **Loops keep invariants.** What each round keeps holds at the end, and the loop ends only where
the next lexeme does not call for more. Each round has to read something: the loop is bounded by
the tokens that are left. -/
theorem whileKind_invariant {more : TokenKind → Bool} {step : α → Parse α}
    {P : α → List Lexeme → Prop} {a b : α} (h : whileKind more step a s = .ok b s')
    (hs : s.Faces g n i) (ha : P a i) (hend : more .endOfInput = false)
    (hstep : ∀ {a b j s s'}, s.Faces g n j → P a j → more (Lexeme.firstKind j) = true →
      step a s = .ok b s' → ∃ k, s'.Faces g n k ∧ k.length < j.length ∧ P b k) :
    ∃ k, s'.Faces g n k ∧ P b k ∧ more (Lexeme.firstKind k) = false := by
  -- Induction on the fuel; the lexemes that are left never outnumber it.
  have rounds : ∀ (fuel : List Token) {a : α} {i : List Lexeme} {s : ParseState},
      i.length ≤ fuel.length → s.Faces g n i → P a i →
      repeatWhile more step fuel a s = .ok b s' →
      ∃ k, s'.Faces g n k ∧ P b k ∧ more (Lexeme.firstKind k) = false := by
    intro fuel
    induction fuel with
    | nil =>
        intro a i s hl hs ha h
        obtain ⟨rfl, rfl⟩ := pure_eq_ok.1 h
        obtain rfl : i = [] := List.length_eq_zero_iff.1 (Nat.le_zero.1 hl)
        exact ⟨[], hs, ha, hend⟩
    | cons t fuel ih =>
        intro a i s hl hs ha h
        rw [repeatWhile_cons, hs.kind_eq] at h
        by_cases hm : more (Lexeme.firstKind i) = true
        · rw [if_pos hm] at h
          obtain ⟨a₁, s₁, h₁, h⟩ := bind_eq_ok.1 h
          obtain ⟨j, hj, hlt, ha₁⟩ := hstep hs ha hm h₁
          rw [List.length_cons] at hl
          exact ih (by omega) hj ha₁ h
        · rw [if_neg hm] at h
          obtain ⟨rfl, rfl⟩ := pure_eq_ok.1 h
          exact ⟨i, hs, ha, by simpa using hm⟩
  exact rounds s.pending (Nat.le_of_eq hs.length_eq.symm) hs ha h

/-! ## Steps that do give a result -/

/-- Facing `i` with `n` levels left, the step gives the result `a` and then faces `k`. -/
def Accepts (g : Setting) (m : Parse α) (n : Nat) (i : List Lexeme) (a : α) (k : List Lexeme) :
    Prop :=
  ∀ s, s.Faces g n i → ∃ s', m s = .ok a s' ∧ s'.Faces g n k

namespace Accepts

variable {m : Parse α} {f : α → Parse β} {a : α} {b : β}

theorem pure : Accepts g (Pure.pure a) n i a i :=
  fun s hs => ⟨s, rfl, hs⟩

theorem bind (hm : Accepts g m n i a j) (hf : Accepts g (f a) n j b k) :
    Accepts g (m >>= f) n i b k := by
  intro s hs
  obtain ⟨s₁, h₁, hs₁⟩ := hm s hs
  obtain ⟨s₂, h₂, hs₂⟩ := hf s₁ hs₁
  exact ⟨s₂, bind_eq_ok.2 ⟨a, s₁, h₁, h₂⟩, hs₂⟩

theorem kind_bind {f : TokenKind → Parse β} (hf : Accepts g (f (Lexeme.firstKind i)) n i b k) :
    Accepts g (kind >>= f) n i b k := by
  intro s hs
  obtain ⟨s₁, h₁, hs₁⟩ := hf s hs
  exact ⟨s₁, bind_eq_ok.2 ⟨_, s, kind_eq_ok.2 ⟨hs.kind_eq, rfl⟩, h₁⟩, hs₁⟩

theorem nested (hm : Accepts g m n i a k) : Accepts g (nested g m) (n + 1) i a k := by
  intro s hs
  have hl := hs.levels
  obtain ⟨s₁, h₁, hs₁⟩ := hm _ hs.enter
  exact ⟨_, nested_eq_ok.2 ⟨by omega, s₁, h₁, rfl⟩, hs₁.leave (by omega)⟩

end Accepts

theorem eat_accepts (hg : g.Complete) {s : ParseState} {t : Lexeme} (hs : s.Faces g n (t :: k)) :
    ∃ u s', u.lexeme = t ∧ eat g t.1 s = .ok u s' ∧ s'.Faces g n k := by
  obtain ⟨u, rest, hp, hu, hk⟩ := List.map_eq_cons_iff.1 hs.lexemes
  refine ⟨u, _, hu, eat_eq_ok.2 ⟨rest, hp, ?_, fun _ => hg, rfl⟩, hk, hs.levels, ?_, fun _ => hg⟩
  · rw [← hu, Token.lexeme]
  · intro v hv
    exact hs.spelled v (List.mem_cons_of_mem _ hv)

theorem discard_eat_accepts (hg : g.Complete) (t : Lexeme) :
    Accepts g (discard (eat g t.1)) n (t :: k) () k := by
  intro s hs
  obtain ⟨u, s', -, h, hs'⟩ := eat_accepts hg hs
  exact ⟨s', discard_eq_ok.2 ⟨u, h⟩, hs'⟩

theorem delimiter_accepts (hg : g.Complete) (d : Delimiter) :
    Accepts g (delimiter g d) n (Lexeme.delimiter d :: k) () k :=
  discard_eat_accepts hg (Lexeme.delimiter d)

theorem keyword_accepts (hg : g.Complete) (w : Keyword) :
    Accepts g (keyword g w) n (Lexeme.keyword w :: k) () k :=
  discard_eat_accepts hg (Lexeme.keyword w)

theorem identifier_accepts (hg : g.Complete) (name : String) :
    Accepts g (identifier g) n (Lexeme.identifier name :: k) name k := by
  intro s hs
  obtain ⟨u, s', hu, h, hs'⟩ := eat_accepts hg hs
  refine ⟨s', bind_eq_ok.2 ⟨u, s', h, pure_eq_ok.2 ⟨?_, rfl⟩⟩, hs'⟩
  exact congrArg Prod.snd hu

/-! ## Loops that come to an end -/

/-- The rounds of a loop, from what it faces and holds at the start to what it faces and holds at
the end. -/
inductive Loops (g : Setting) (n : Nat) (more : TokenKind → Bool) (step : α → Parse α) :
    List Lexeme → α → List Lexeme → α → Prop
  | stop {i a} : more (Lexeme.firstKind i) = false → Loops g n more step i a i a
  | round {i a j b k c} : more (Lexeme.firstKind i) = true → Accepts g (step a) n i b j →
      j.length < i.length → Loops g n more step j b k c → Loops g n more step i a k c

theorem Loops.accepts {more : TokenKind → Bool} {step : α → Parse α} {a c : α}
    (h : Loops g n more step i a k c) : Accepts g (whileKind more step a) n i c k := by
  have rounds : ∀ {fuel : List Token} {s : ParseState}, i.length ≤ fuel.length →
      s.Faces g n i → ∃ s', repeatWhile more step fuel a s = .ok c s' ∧ s'.Faces g n k := by
    induction h with
    | @stop i a hm =>
        intro fuel s hl hs
        refine ⟨s, ?_, hs⟩
        cases fuel with
        | nil => rfl
        | cons t fuel =>
            rw [repeatWhile_cons, hs.kind_eq, hm]
            rfl
    | @round i a j b k c hm hstep hlt _ ih =>
        intro fuel s hl hs
        cases fuel with
        | nil =>
            rw [List.length_nil] at hl
            omega
        | cons t fuel =>
            obtain ⟨s₁, h₁, hs₁⟩ := hstep s hs
            rw [List.length_cons] at hl
            have hf : j.length ≤ fuel.length := by omega
            obtain ⟨s₂, h₂, hs₂⟩ := ih hf hs₁
            refine ⟨s₂, ?_, hs₂⟩
            rw [repeatWhile_cons, hs.kind_eq, if_pos hm]
            exact bind_eq_ok.2 ⟨b, s₁, h₁, h₂⟩
  intro s hs
  exact rounds (Nat.le_of_eq hs.length_eq.symm) hs

end Parse

end LetterLang

import LetterLang.Proofs.CorrectPrefix
import LetterLang.Proofs.Failure

/-!
# The wanted token in place of another

A parse fails for want of a token. Now a second parse has that token where the first one has
something else, and nothing behind it. Both do the same up to that place. There the first parse may
still leave productions, skip what is optional and enter other productions before it fails, all of
which it decides on the token that does not fit. The second parse decides on the token that is
wanted, and it is shown to go the same way, or to take the token earlier.

- `Repair`: the two parses, the tokens that they share, and what stands ahead of each.
- `Parse.Stuck`: the first parse fails for want of the token, at the place where the two part.
- `Parse.Outcome`: the outcomes of a step in the two parses. They are in step; or the second has
  found the token and is cut short (`Parse.Found`); or the first will not fail for want of the token
  any more, and the second does not matter (`Parse.Strays`).
- `Parse.Guides`: the steps of which this can be said. Each has two conditions on the kind of the
  wanted token: on `wants` the first parse may get stuck as soon as it starts the step, and on `off`
  it may leave the step without a token consumed while the second has lost its way. A step that is
  left off its way must not be followed by one that wants the token; this is all there is to check
  of the grammar. `Parse.Tracks` and `Parse.Steers` say less: a branch of a choice, which is taken
  only where the kind of the next token calls for it, need not find the token by itself.
-/

namespace LetterLang

open Parse

/-! ## Errors for want of a token -/

def SyntaxError.expected? : SyntaxError → Option Expectation
  | .unexpectedToken _ expected _ | .unexpectedEnd expected _ => some expected
  | .expressionExpected _ _ => some .expression
  | .invalidTarget _ _ | .unexpectedLiteral _ _ | .nestingTooDeep _ _ => none

def SyntaxError.start? (e : SyntaxError) : Option TokenKind :=
  e.expected?.bind Expectation.start?

/-- Whether some place of the grammar calls for a token of the kind. Those of other kinds are
consumed only where they stand. -/
def TokenKind.isCalledFor : TokenKind → Bool
  | .identifier | .simpleAssign | .delimiter _ | .keyword _ => true
  | _ => false

/-! ## Two parses -/

/-- Two parses. The first has the tokens `shared` and then `ahead`, the second has `shared` and then
only the token `wanted`. -/
structure Repair where
  left : Setting
  right : Setting
  shared : List Token
  ahead : List Token
  wanted : Token
  limit_eq : left.limit = right.limit
  complete : right.Complete
  spelled : ∀ t ∈ shared, t.lexeme.Spelled

namespace Repair

def next (R : Repair) : TokenKind :=
  match R.ahead with
  | [] => .endOfInput
  | t :: _ => t.kind

def Wants (R : Repair) (k : TokenKind) : Prop :=
  R.wanted.kind = k ∧ R.next ≠ k

end Repair

variable {R : Repair} {off : Prop} {s s' : ParseState} {us : List Token} {α β : Type}

/-- The two parses are in step, with the tokens `us` still to come before they part. -/
structure ParseState.Beside (R : Repair) (us : List Token) (s s' : ParseState) : Prop where
  depth : s.depth = s'.depth
  pending : s.pending = us ++ R.ahead
  pending' : s'.pending = us ++ [R.wanted]
  mem : ∀ t ∈ us, t ∈ R.shared

theorem ParseState.Beside.deeper (h : s.Beside R us s') :
    ({ s with depth := s.depth + 1 } : ParseState).Beside R us { s' with depth := s'.depth + 1 } :=
  ⟨congrArg (· + 1) h.depth, h.pending, h.pending', h.mem⟩

theorem ParseState.Beside.pending_ne {t : Token} (h : s.Beside R (t :: us) s') :
    s.pending ≠ R.ahead := by
  intro heq
  have hlength := congrArg List.length (h.pending.symm.trans heq)
  simp only [List.length_append, List.length_cons] at hlength
  omega

theorem ParseState.kind_of_ahead (h : s.pending = R.ahead) : s.kind = R.next := by
  rw [ParseState.kind, h]
  rfl

theorem ParseState.kind_eq_lookahead (s : ParseState) (g : Setting) :
    s.kind = (s.lookahead g).kind := by
  rw [ParseState.kind, ParseState.lookahead]
  cases s.pending with
  | nil => rfl
  | cons t rest => rfl

theorem ParseState.kind_of_cons {t : Token} {rest : List Token} (h : s.pending = t :: rest) :
    s.kind = t.kind := by
  rw [ParseState.kind, h]

namespace Parse

/-- The parse has failed for want of the token, with what stands ahead still to come. -/
inductive Stuck (R : Repair) : EStateM.Result Stop ParseState α → Prop
  | error {e s} : e.start? = some R.wanted.kind → s.pending = R.ahead →
      Stuck R (.error (.failed (.grammar e)) s)

theorem Stuck.pending_eq {r : EStateM.Result Stop ParseState α} (h : Stuck R r) :
    (endState r).pending = R.ahead := by
  cases h with
  | error _ hpending => exact hpending

/-- An outcome of the first parse after which the second does not matter: the first has failed, but
not for want of the token; it has consumed what stands ahead; or it is still there and the second
has lost its way. -/
inductive Strays (R : Repair) (off : Prop) : EStateM.Result Stop ParseState α → Prop
  | error {e s} : ¬ Stuck R (.error e s : EStateM.Result Stop ParseState α) → Strays R off (.error e s)
  | past {a s} : s.pending.length < R.ahead.length → Strays R off (.ok a s)
  | off {a s} : s.pending = R.ahead → off → Strays R off (.ok a s)

/-- The wanted token is called for, and the second parse is cut short after it. -/
structure Found (R : Repair) (r' : EStateM.Result Stop ParseState α) : Prop where
  isCalledFor : R.wanted.kind.isCalledFor = true
  short : Short R.right r'

theorem Found.bind {m' : Parse α} {f' : α → Parse β} (h : Found R (m' s'))
    (hf : ∀ a, EndsShort R.right (f' a)) : Found R ((m' >>= f') s') :=
  ⟨h.isCalledFor, h.short.bind hf⟩

theorem Found.nested {m' : Parse α} (h : Found R (m' { s' with depth := s'.depth + 1 })) :
    Found R (Parse.nested R.right m' s') :=
  ⟨h.isCalledFor, h.short.nested⟩

def Outcome (R : Repair) (off : Prop) (r r' : EStateM.Result Stop ParseState α) : Prop :=
  (∃ a s s' us, r = .ok a s ∧ r' = .ok a s' ∧ s.Beside R us s') ∨ Found R r' ∨ Strays R off r

/-- The step of the first parse only consumes tokens, whatever its outcome. What its errors say of
the tokens is not used. -/
abbrev Moves (R : Repair) (consumes : Bool) (m : Parse α) : Prop :=
  Accounts R.left (fun _ => True) consumes m

theorem Accounts.suffix {g : Setting} {c : Bool} {m : Parse α}
    (hm : Accounts g (fun _ => True) c m) (s : ParseState) :
    (endState (m s)).pending <:+ s.pending :=
  (hm s fun _ _ => trivial).reaches.suffix

theorem Accounts.advances {g : Setting} {c : Bool} {m : Parse α}
    (hm : Accounts g (fun _ => True) c m) : Advances c m :=
  fun _ _ _ h => (hm.ok (fun _ _ => trivial) h).leads

namespace Strays

variable {c : Bool} {m : Parse α}

theorem not_stuck {r : EStateM.Result Stop ParseState α} (h : Strays R off r) : ¬ Stuck R r := by
  cases h with
  | error hnot => exact hnot
  | past _ => nofun
  | off _ _ => nofun

/-- Once what stands ahead is consumed, it does not come back. -/
theorem of_past (hm : Moves R c m) (hs : s.pending.length < R.ahead.length) :
    Strays R off (m s) := by
  have hle := (hm.suffix s).length_le
  cases h : m s with
  | ok a s₁ =>
      rw [h] at hle
      exact .past (Nat.lt_of_le_of_lt hle hs)
  | error e s₁ =>
      refine .error fun hstuck => ?_
      rw [h] at hle
      have hpending : s₁.pending = R.ahead := hstuck.pending_eq
      have hle : s₁.pending.length ≤ s.pending.length := hle
      rw [hpending] at hle
      omega

theorem of_ahead (hm : Moves R c m) (hs : s.pending = R.ahead) (hnot : ¬ Stuck R (m s))
    (hoff : c = false → off) : Strays R off (m s) := by
  cases h : m s with
  | error e s₁ => exact .error (h ▸ hnot)
  | ok a s₁ =>
      cases c with
      | true => exact .past (hs ▸ (hm.advances s a s₁ h).length_lt)
      | false =>
          have hsuffix := hm.suffix s
          rw [h, hs] at hsuffix
          have hsuffix : s₁.pending <:+ R.ahead := hsuffix
          by_cases heq : s₁.pending = R.ahead
          · exact .off heq (hoff rfl)
          · exact .past (Nat.lt_of_le_of_ne hsuffix.length_le fun hl => heq (hsuffix.eq_of_length hl))

theorem bind {f : α → Parse β} {o : Prop} (h : Strays R off (m s)) (hf : ∀ a, Moves R c (f a))
    (hmisses : off → ∀ a s, s.pending = R.ahead → ¬ Stuck R (f a s))
    (hoff : c = false → off → o) : Strays R o ((m >>= f) s) := by
  generalize hr : m s = r at h
  cases h with
  | error hnot =>
      rw [bind_of_error hr]
      refine .error fun hstuck => hnot ?_
      cases hstuck with
      | error hstart hpending => exact .error hstart hpending
  | past hlt =>
      rw [bind_of_ok hr]
      exact .of_past (hf _) hlt
  | off hpending hout =>
      rw [bind_of_ok hr]
      exact .of_ahead (hf _) hpending (hmisses hout _ _ hpending) fun hc => hoff hc hout

end Strays

/-! ## Steps -/

def Takes (R : Repair) (m : Parse α) : Prop :=
  ∀ s, s.pending = [R.wanted] → Found R (m s)

/-- Before the parses part, the steps go the same way. Where they part the first one gets stuck only
if it `wants` the token. -/
structure Tracks (R : Repair) (wants off : Prop) (consumes : Bool) (m m' : Parse α) : Prop where
  moves : Moves R consumes m
  misses : ¬ wants → ∀ s, s.pending = R.ahead → ¬ Stuck R (m s)
  shared : ∀ t us s s', s.Beside R (t :: us) s' → Outcome R off (m s) (m' s')

structure Steers (R : Repair) (wants off : Prop) (consumes : Bool) (m m' : Parse α) : Prop extends
    Tracks R wants off consumes m m' where
  parting : ∀ s s', s.Beside R [] s' → Outcome R off (m s) (m' s')

/-- Besides, the second step is cut short at the end of the input, and it takes the token that the
first one wants. -/
structure Guides (R : Repair) (wants off : Prop) (consumes : Bool) (m m' : Parse α) : Prop extends
    Steers R wants off consumes m m' where
  ends : EndsShort R.right m'
  takes : consumes = true → wants → Takes R m'

variable {wants : Prop} {c : Bool} {m m' : Parse α}

theorem Steers.follows (h : Steers R wants off c m m') (hs : s.Beside R us s') :
    Outcome R off (m s) (m' s') := by
  cases us with
  | nil => exact h.parting s s' hs
  | cons t us => exact h.shared t us s s' hs

theorem Strays.weaken {o : Prop} {r : EStateM.Result Stop ParseState α} (h : Strays R off r)
    (ho : off → o) : Strays R o r := by
  cases h with
  | error hnot => exact .error hnot
  | past hlt => exact .past hlt
  | off hpending hoff => exact .off hpending (ho hoff)

theorem Outcome.weaken {o : Prop} {r r' : EStateM.Result Stop ParseState α}
    (h : Outcome R off r r') (ho : off → o) : Outcome R o r r' := by
  rcases h with hok | hfound | hstrays
  · exact .inl hok
  · exact .inr (.inl hfound)
  · exact .inr (.inr (hstrays.weaken ho))

theorem Tracks.weaken {w o : Prop} (h : Tracks R wants off c m m') (hw : wants → w)
    (ho : off → o) : Tracks R w o c m m' where
  moves := h.moves
  misses hnot := h.misses fun hwants => hnot (hw hwants)
  shared t us s s' hs := (h.shared t us s s' hs).weaken ho

theorem Tracks.own {w : Prop} {k : TokenKind} (h : Tracks R (R.Wants k) off c m m') :
    Tracks R (k = R.next → w) off c m m' :=
  h.weaken (fun hw hk => absurd hk.symm hw.2) id

theorem Guides.weaken {o : Prop} (h : Guides R wants off c m m') (ho : off → o) :
    Guides R wants o c m m' where
  toTracks := h.toTracks.weaken id ho
  parting s s' hs := (h.parting s s' hs).weaken ho
  ends := h.ends
  takes := h.takes

/-- Where the parses part, a step that consumes a token takes the wanted one or strays. -/
theorem Tracks.guides (h : Tracks R wants off true m m') (hends : EndsShort R.right m')
    (htakes : wants → Takes R m') : Guides R wants off true m m' where
  toTracks := h
  parting s s' hs := by
    by_cases hw : wants
    · exact .inr (.inl (htakes hw s' hs.pending'))
    · exact .inr (.inr (.of_ahead h.moves hs.pending (h.misses hw s hs.pending) nofun))
  ends := hends
  takes _ := htakes

theorem Guides.pure (a : α) : Guides R wants off false (Pure.pure a : Parse α) (Pure.pure a) where
  moves := .pure a
  misses := by
    rintro - s - ⟨⟩
  shared t us s s' hs := .inl ⟨a, s, s', t :: us, rfl, rfl, hs⟩
  parting s s' hs := .inl ⟨a, s, s', [], rfl, rfl, hs⟩
  ends s hnil := .ok hnil
  takes := nofun

/-- An error that is for want of nothing is the same in both parses. -/
theorem Steers.fail {e : SyntaxError} (he : e.start? = none)
    (hmoves : Moves R c (Parse.fail e : Parse α)) :
    Steers R wants off c (Parse.fail e : Parse α) (Parse.fail e) := by
  have hnot : ∀ s, ¬ Stuck R ((Parse.fail e : Parse α) s) := by
    rintro s ⟨hstart, -⟩
    rw [he] at hstart
    cases hstart
  refine ⟨⟨hmoves, fun _ s _ => hnot s, ?_⟩, ?_⟩
  · exact fun t us s s' _ => .inr (.inr (.error (hnot s)))
  · exact fun s s' _ => .inr (.inr (.error (hnot s)))

/-! ## Composed steps -/

section Bind

variable {w o : Prop} {b : Bool} {f f' : α → Parse β}

/-- What is off its way after the first step must not want the token in the second. -/
theorem Outcome.bind (h : Outcome R off (m s) (m' s'))
    (hf : ∀ a, Guides R w o b (f a) (f' a)) (hnot : off → ¬ w) (hoff : b = false → off → o) :
    Outcome R o ((m >>= f) s) ((m' >>= f') s') := by
  rcases h with ⟨a, s₁, s₁', us, hok, hok', h₁⟩ | hfound | hstrays
  · rw [bind_of_ok hok, bind_of_ok hok']
    exact (hf a).follows h₁
  · exact .inr (.inl (hfound.bind fun a => (hf a).ends))
  · have hmisses : off → ∀ a s, s.pending = R.ahead → ¬ Stuck R (f a s) :=
      fun ho a => (hf a).misses (hnot ho)
    exact .inr (.inr (hstrays.bind (fun a => (hf a).moves) hmisses hoff))

theorem Tracks.bind {W : Prop} (hm : Tracks R wants off c m m')
    (hf : ∀ a, Guides R w o b (f a) (f' a)) (hnot : off → ¬ w) (hoff : b = false → off → o)
    (hfirst : wants → W) (hrest : c = false → w → W) :
    Tracks R W o c (m >>= f) (m' >>= f') where
  moves := hm.moves.bind fun a => (hf a).moves
  misses hW s hs := by
    have hstrays : Strays R (c = false) (m s) :=
      .of_ahead hm.moves hs (hm.misses (fun h => hW (hfirst h)) s hs) id
    have hall : Strays R True ((m >>= f) s) :=
      hstrays.bind (fun a => (hf a).moves)
        (fun hc a => (hf a).misses fun h => hW (hrest hc h)) fun _ _ => trivial
    exact hall.not_stuck
  shared t us s s' hs := (hm.shared t us s s' hs).bind hf hnot hoff

theorem Takes.bind (hm : Takes R m') (hf : ∀ a, EndsShort R.right (f' a)) :
    Takes R (m' >>= f') :=
  fun s hs => (hm s hs).bind hf

namespace Guides

/-- A step that consumes a token, and what follows it. -/
theorem bind (hm : Guides R wants off true m m') (hf : ∀ a, Guides R w o b (f a) (f' a))
    (hnot : off → ¬ w) (hoff : b = false → off → o) :
    Guides R wants o true (m >>= f) (m' >>= f') where
  toTracks := hm.toTracks.bind hf hnot hoff id nofun
  parting s s' hs := (hm.parting s s' hs).bind hf hnot hoff
  ends s hnil := (hm.ends s hnil).bind fun a => (hf a).ends
  takes hc hw := (hm.takes hc hw).bind fun a => (hf a).ends

/-- A step that keeps to its way, and what follows it. -/
theorem seq (hm : Guides R wants False true m m') (hf : ∀ a, Guides R w o b (f a) (f' a)) :
    Guides R wants o true (m >>= f) (m' >>= f') :=
  hm.bind hf False.elim fun _ => False.elim

theorem bind_optional (hm : Guides R wants off false m m')
    (hf : ∀ a, Guides R w o b (f a) (f' a)) (hnot : off → ¬ w) (hoff : b = false → off → o) :
    Guides R (wants ∨ w) o false (m >>= f) (m' >>= f') where
  toTracks := hm.toTracks.bind hf hnot hoff .inl fun _ => .inr
  parting s s' hs := (hm.parting s s' hs).bind hf hnot hoff
  ends s hnil := (hm.ends s hnil).bind fun a => (hf a).ends
  takes := nofun

/-- A step that loses its way only if a token other than `stop` is wanted, up to `stop`. -/
theorem upTo {stop : TokenKind} (hm : Guides R wants (R.wanted.kind ≠ stop) false m m')
    (hf : ∀ a, Guides R (R.Wants stop) o true (f a) (f' a)) :
    Guides R (wants ∨ R.Wants stop) o false (m >>= f) (m' >>= f') :=
  hm.bind_optional hf (fun hk hw => hk hw.1) nofun

theorem map (hm : Guides R wants off c m m') (g : α → β) :
    Guides R wants off c (m >>= fun a => Pure.pure (g a)) (m' >>= fun a => Pure.pure (g a)) := by
  have hpure : ∀ a, Guides R False off false (Pure.pure (g a) : Parse β) (Pure.pure (g a)) :=
    fun a => pure (g a)
  cases c with
  | true => exact hm.bind hpure (fun _ => id) fun _ => id
  | false =>
      have hall := hm.bind_optional hpure (fun _ => id) fun _ => id
      rwa [or_false] at hall

end Guides

end Bind

end Parse

/-! ## Consuming a token -/

theorem ParseState.Beside.eat {t : Token} (h : s.Beside R (t :: us) s') (k : TokenKind)
    (f : Token → Parse β) :
    (∃ s₁ s₁', Parse.eat R.left k s = .ok t s₁ ∧ Parse.eat R.right k s' = .ok t s₁' ∧
      s₁.Beside R us s₁' ∧ t ∈ R.shared ∧ t.kind = k) ∨
    Strays R off ((Parse.eat R.left k >>= f) s) := by
  by_cases hk : t.kind = k
  · subst hk
    rcases eat_or_fault (g := R.left) h.pending with ⟨-, hok⟩ | ⟨e, -, herror⟩
    · refine .inl ⟨_, _, hok, eat_of_cons h.pending' fun _ => R.complete, ⟨h.depth, rfl, rfl, ?_⟩,
        h.mem t List.mem_cons_self, rfl⟩
      exact fun u hu => h.mem u (List.mem_cons_of_mem t hu)
    · rw [bind_of_error herror]
      exact .inr (.error nofun)
  · rw [bind_of_error (eat_of_ne h.pending hk)]
    exact .inr (.error fun hstuck => h.pending_ne hstuck.pending_eq)

namespace Parse

variable {wants : Prop} {c : Bool} {m m' : Parse α}

/-- Where the parses part, a token is consumed unless the wanted one is called for. -/
theorem strays_eat {k : TokenKind} {f : Token → Parse β} (hk : k ≠ .endOfInput)
    (hs : s.pending = R.ahead) (hf : ∀ t, t.kind = k → Moves R false (f t)) (hnot : ¬ R.Wants k) :
    Strays R off ((Parse.eat R.left k >>= f) s) := by
  have hnext := ParseState.kind_of_ahead hs
  cases hp : s.pending with
  | nil =>
      rw [bind_of_error (eat_of_nil hp)]
      refine .error fun hstuck => ?_
      cases hstuck with
      | error hstart _ =>
          rw [kind_of_nil hp] at hnext
          exact hnot ⟨(Option.some.inj hstart).symm, fun heq => hk (hnext.trans heq).symm⟩
  | cons t rest =>
      rw [ParseState.kind_of_cons hp] at hnext
      by_cases hkind : t.kind = k
      · subst hkind
        rcases eat_or_fault (g := R.left) hp with ⟨-, hok⟩ | ⟨e, -, herror⟩
        · rw [bind_of_ok hok]
          refine .of_past (hf t rfl) ?_
          rw [← hs, hp]
          exact Nat.lt_succ_self _
        · rw [bind_of_error herror]
          exact .error nofun
      · rw [bind_of_error (eat_of_ne hp hkind)]
        refine .error fun hstuck => ?_
        cases hstuck with
        | error hstart _ =>
            exact hnot ⟨(Option.some.inj hstart).symm, fun heq => hkind (hnext.trans heq)⟩

theorem Tracks.eat {w o : Prop} {b : Bool} {f f' : Token → Parse β} {k : TokenKind}
    (hk : k ≠ .endOfInput) (hmoves : ∀ t, t.kind = k → Moves R false (f t))
    (hf : ∀ t, t.lexeme.Spelled → t.kind = k → Steers R w o b (f t) (f' t)) :
    Tracks R (R.Wants k) o true (Parse.eat R.left k >>= f) (Parse.eat R.right k >>= f') := by
  constructor
  · have heat : Moves R true (Parse.eat R.left k) := .eat k
    have hrest : ∀ s t s', s.Knows (fun _ => True) → Parse.eat R.left k s = .ok t s' →
        EndsFrom R.left (fun _ => True) false s' (f t s') := by
      intro s t s' _ h
      obtain ⟨-, -, hkind, -⟩ := eat_eq_ok.1 h
      exact hmoves t hkind s' fun _ _ => trivial
    exact heat.bind_of hrest
  · intro hnot s hs
    have hstrays : Strays R True ((Parse.eat R.left k >>= f) s) := strays_eat hk hs hmoves hnot
    exact hstrays.not_stuck
  · intro t us s s' hs
    rcases hs.eat k f with ⟨s₁, s₁', hok, hok', h₁, ht, hkind⟩ | hstrays
    · rw [bind_of_ok hok, bind_of_ok hok']
      exact (hf t (R.spelled t ht) hkind).follows h₁
    · exact .inr (.inr hstrays)

namespace Guides

theorem eat {w o : Prop} {b : Bool} {f f' : Token → Parse β} {k : TokenKind}
    (hk : k.isCalledFor = true) (hf : ∀ t, t.kind = k → Guides R w o b (f t) (f' t)) :
    Guides R (R.Wants k) o true (Parse.eat R.left k >>= f) (Parse.eat R.right k >>= f') := by
  have hne : k ≠ .endOfInput := by
    rintro rfl
    cases hk
  have htracks : Tracks R (R.Wants k) o true (Parse.eat R.left k >>= f)
      (Parse.eat R.right k >>= f') :=
    .eat hne (fun t ht => (hf t ht).moves.weaken nofun) fun t _ ht => (hf t ht).toSteers
  have htakes : R.Wants k → Takes R (Parse.eat R.right k >>= f') := by
    rintro ⟨rfl, -⟩ s hs
    rw [bind_of_ok (eat_of_cons hs fun _ => R.complete)]
    exact ⟨hk, (hf R.wanted rfl).ends _ rfl⟩
  refine htracks.guides ?_ htakes
  intro s hnil
  rw [bind_of_error (eat_of_nil hnil)]
  exact .unexpectedEnd

theorem discard_eat {k : TokenKind} (hk : k.isCalledFor = true) :
    Guides R (R.Wants k) False true (discard (Parse.eat R.left k)) (discard (Parse.eat R.right k)) := by
  rw [discard_eq_bind, discard_eq_bind]
  exact eat (w := False) hk fun _ _ => pure ()

theorem delimiter (d : Delimiter) :
    Guides R (R.Wants (.delimiter d)) False true (Parse.delimiter R.left d)
      (Parse.delimiter R.right d) :=
  discard_eat rfl

theorem closing (d : Delimiter) (a : α) :
    Guides R (R.Wants (.delimiter d)) False true
      (Parse.delimiter R.left d >>= fun _ => Pure.pure a)
      (Parse.delimiter R.right d >>= fun _ => Pure.pure a) :=
  (delimiter d).map fun _ => a

theorem keyword (k : Keyword) :
    Guides R (R.Wants (.keyword k)) False true (Parse.keyword R.left k)
      (Parse.keyword R.right k) :=
  discard_eat rfl

theorem identifier :
    Guides R (R.Wants .identifier) False true (Parse.identifier R.left)
      (Parse.identifier R.right) :=
  eat (w := False) rfl fun t _ => pure t.text

end Guides

/-! ## Levels of nesting -/

theorem not_stuck_nestingTooDeep {limit : UInt32} {span : Span} :
    ¬ Stuck R (.error (.failed (.grammar (.nestingTooDeep limit span))) s :
      EStateM.Result Stop ParseState α) := by
  rintro ⟨hstart, -⟩
  cases hstart

theorem Strays.nested {g : Setting} (h : Strays R off (m { s with depth := s.depth + 1 })) :
    Strays R off (Parse.nested g m s) := by
  by_cases hd : g.limit.toNat ≤ s.depth
  · rw [nested_of_le hd]
    exact .error not_stuck_nestingTooDeep
  · rw [nested_of_lt (Nat.lt_of_not_le hd)]
    generalize m { s with depth := s.depth + 1 } = r at h
    cases h with
    | error hnot =>
        refine .error fun hstuck => hnot ?_
        cases hstuck with
        | error hstart hpending => exact .error hstart hpending
    | past hlt => exact .past hlt
    | off hpending hoff => exact .off hpending hoff

theorem Outcome.nested (hs : s.Beside R us s')
    (h : Outcome R off (m { s with depth := s.depth + 1 }) (m' { s' with depth := s'.depth + 1 })) :
    Outcome R off (Parse.nested R.left m s) (Parse.nested R.right m' s') := by
  rcases h with ⟨a, s₁, s₁', vs, hok, hok', h₁⟩ | hfound | hstrays
  · by_cases hd : R.left.limit.toNat ≤ s.depth
    · rw [nested_of_le hd]
      exact .inr (.inr (.error not_stuck_nestingTooDeep))
    · have hd : s.depth < R.left.limit.toNat := Nat.lt_of_not_le hd
      have hd' : s'.depth < R.right.limit.toNat := by rwa [← R.limit_eq, ← hs.depth]
      refine .inl ⟨a, leave s₁, leave s₁', vs, ?_, ?_, ?_⟩
      · rw [nested_of_lt hd, hok]
      · rw [nested_of_lt hd', hok']
      · exact ⟨congrArg (· - 1) h₁.depth, h₁.pending, h₁.pending', h₁.mem⟩
  · exact .inr (.inl hfound.nested)
  · exact .inr (.inr hstrays.nested)

theorem Takes.kind_bind {f' : TokenKind → Parse α} (h : Takes R (f' R.wanted.kind)) :
    Takes R (kind >>= f') := by
  intro s hs
  rw [Parse.kind_bind, ParseState.kind_of_cons hs]
  exact h s hs

namespace Guides

theorem nested (hm : Guides R wants off c m m') :
    Guides R wants off c (Parse.nested R.left m) (Parse.nested R.right m') where
  moves := hm.moves.nested
  misses hnot s hs := by
    have hinner : Strays R True (m { s with depth := s.depth + 1 }) :=
      .of_ahead hm.moves hs (hm.misses hnot _ hs) fun _ => trivial
    have hall : Strays R True (Parse.nested R.left m s) := hinner.nested
    exact hall.not_stuck
  shared t us s s' hs := .nested hs (hm.shared t us _ _ hs.deeper)
  parting s s' hs := .nested hs (hm.parting _ _ hs.deeper)
  ends s hnil := .nested (hm.ends _ hnil)
  takes hc hw s hs := .nested (hm.takes hc hw _ hs)

/-! ## Choices -/

/-- A choice by the next kind. Where the kind is in `C` a token is consumed, and elsewhere the step
is skipped. -/
theorem choose {C : TokenKind → Prop} {f f' : TokenKind → Parse α}
    (hskip : ∀ k k', ¬ C k → ¬ C k' → c = false ∧ ∃ a, f k = Pure.pure a ∧ f' k' = Pure.pure a)
    (hf : ∀ k, C k → Tracks R (k = R.next → wants) off true (f k) (f' k))
    (hends : EndsShort R.right (f' .endOfInput)) (htakes : wants → Takes R (f' R.wanted.kind))
    (hoff : C R.wanted.kind → ¬ C R.next → off ∨ Takes R (f' R.wanted.kind)) :
    Guides R wants off c (kind >>= f) (kind >>= f') where
  moves s hs := by
    rw [kind_bind]
    by_cases hC : C s.kind
    · exact (hf s.kind hC).moves.weaken (fun _ => rfl) s hs
    · obtain ⟨rfl, a, ha, -⟩ := hskip s.kind s.kind hC hC
      rw [ha]
      exact .refl s
  misses hnot s hs := by
    rw [kind_bind, ParseState.kind_of_ahead hs]
    by_cases hC : C R.next
    · exact (hf R.next hC).misses (fun h => hnot (h rfl)) s hs
    · obtain ⟨-, a, ha, -⟩ := hskip R.next R.next hC hC
      rw [ha]
      rintro ⟨⟩
  shared t us s s' hs := by
    rw [kind_bind, kind_bind, ParseState.kind_of_cons hs.pending, ParseState.kind_of_cons hs.pending']
    by_cases hC : C t.kind
    · exact (hf t.kind hC).shared t us s s' hs
    · obtain ⟨-, a, ha, ha'⟩ := hskip t.kind t.kind hC hC
      rw [ha, ha']
      exact .inl ⟨a, s, s', t :: us, rfl, rfl, hs⟩
  parting s s' hs := by
    by_cases hw : wants
    · exact .inr (.inl ((htakes hw).kind_bind s' hs.pending'))
    · rw [kind_bind, kind_bind, ParseState.kind_of_ahead hs.pending,
        ParseState.kind_of_cons hs.pending']
      by_cases hC : C R.next
      · have htracks := hf R.next hC
        have hstuck := htracks.misses (fun h => hw (h rfl)) s hs.pending
        exact .inr (.inr (.of_ahead htracks.moves hs.pending hstuck nofun))
      · by_cases hC' : C R.wanted.kind
        · -- The first parse skips what the second is to find.
          obtain ⟨-, a, ha, -⟩ := hskip R.next R.next hC hC
          rw [ha]
          rcases hoff hC' hC with ho | htakes
          · exact .inr (.inr (.off hs.pending ho))
          · exact .inr (.inl (htakes s' hs.pending'))
        · obtain ⟨-, a, ha, ha'⟩ := hskip R.next R.wanted.kind hC hC'
          rw [ha, ha']
          exact .inl ⟨a, s, s', [], rfl, rfl, hs⟩
  ends s hnil := by
    rw [kind_bind, kind_of_nil hnil]
    exact hends s hnil
  takes _ hw := (htakes hw).kind_bind

theorem look {f f' : TokenKind → Parse α}
    (hf : ∀ k, Tracks R (k = R.next → wants) off true (f k) (f' k))
    (hends : EndsShort R.right (f' .endOfInput)) (htakes : wants → Takes R (f' R.wanted.kind)) :
    Guides R wants off true (kind >>= f) (kind >>= f') :=
  choose (C := fun _ => True) (fun _ _ hk => absurd trivial hk) (fun k _ => hf k) hends htakes
    fun _ hk => absurd trivial hk

theorem optional {C : TokenKind → Prop} {f f' : TokenKind → Parse α} {a : α}
    (hskip : ∀ k, ¬ C k → f k = Pure.pure a ∧ f' k = Pure.pure a)
    (hf : ∀ k, C k → Tracks R (k = R.next → wants) off true (f k) (f' k))
    (hends : EndsShort R.right (f' .endOfInput)) (htakes : wants → Takes R (f' R.wanted.kind))
    (hoff : C R.wanted.kind → ¬ C R.next → off ∨ Takes R (f' R.wanted.kind)) :
    Guides R wants off false (kind >>= f) (kind >>= f') :=
  choose (fun k k' hk hk' => ⟨rfl, a, (hskip k hk).1, (hskip k' hk').2⟩) hf hends htakes hoff

theorem token {k₀ : TokenKind} {a : α} (hk₀ : k₀ ≠ .endOfInput)
    (hm : Guides R (R.Wants k₀) off true m m') :
    Guides R False off false (kind >>= fun k => if k = k₀ then m else Pure.pure a)
      (kind >>= fun k => if k = k₀ then m' else Pure.pure a) := by
  refine optional (C := (· = k₀)) (a := a) ?_ ?_ ?_ False.elim ?_
  · intro k hk
    exact ⟨if_neg hk, if_neg hk⟩
  · rintro k rfl
    rw [if_pos rfl, if_pos rfl]
    exact hm.toTracks.own
  · rw [if_neg hk₀.symm]
    exact fun s hnil => .ok hnil
  · intro hk hnext
    rw [if_pos hk]
    exact .inr (hm.takes rfl ⟨hk, hnext⟩)

theorem orStop {stop : TokenKind} {a : α} {o : Prop} (hm : Guides R wants o true m m')
    (hw : wants → R.wanted.kind ≠ stop) (ho : o → R.wanted.kind ≠ stop) :
    Guides R wants (R.wanted.kind ≠ stop) false
      (kind >>= fun k => if k = stop then Pure.pure a else m)
      (kind >>= fun k => if k = stop then Pure.pure a else m') := by
  refine optional (C := (· ≠ stop)) (a := a) ?_ ?_ ?_ ?_ fun hk _ => .inl hk
  · intro k hk
    have hk : k = stop := Classical.not_not.1 hk
    exact ⟨if_pos hk, if_pos hk⟩
  · intro k hk
    rw [if_neg hk, if_neg hk]
    exact hm.toTracks.weaken (fun h _ => h) ho
  · split
    · exact fun s hnil => .ok hnil
    · exact hm.ends
  · intro h
    rw [if_neg (hw h)]
    exact hm.takes rfl h

/-! ## Loops -/

section Loops

variable {o : Prop} {more : TokenKind → Bool} {f f' : α → TokenKind → Parse α}

theorem repeatWhile_kind_cons {t : Token} {fuel : List Token} {a : α} :
    Parse.repeatWhile more (fun a => kind >>= f a) (t :: fuel) a =
      kind >>= fun k => if more k = true then
        f a k >>= Parse.repeatWhile more (fun a => kind >>= f a) fuel else Pure.pure a := by
  funext s
  rw [repeatWhile_cons, kind_bind]
  split
  · rfl
  · rfl

theorem repeatWhile (hend : more .endOfInput = false)
    (hf : ∀ a k, more k = true → Tracks R (k = R.next → wants) o true (f a k) (f' a k))
    (hnot : o → ¬ wants) (ho : o → off)
    (htakes : wants → more R.wanted.kind = true ∧ ∀ a, Takes R (f' a R.wanted.kind))
    (hoff : more R.wanted.kind = true → more R.next = false →
      off ∨ ∀ a, Takes R (f' a R.wanted.kind)) (fuel : List Token) (a : α) :
    Guides R wants off false (Parse.repeatWhile more (fun a => kind >>= f a) fuel a)
      (Parse.repeatWhile more (fun a => kind >>= f' a) fuel a) := by
  induction fuel generalizing a with
  | nil => exact pure a
  | cons t fuel ih =>
      rw [repeatWhile_kind_cons, repeatWhile_kind_cons]
      refine optional (C := (more · = true)) (a := a) ?_ ?_ ?_ ?_ ?_
      · intro k hk
        exact ⟨if_neg hk, if_neg hk⟩
      · intro k hk
        rw [if_pos hk, if_pos hk]
        exact (hf a k hk).bind ih hnot (fun _ => ho) id nofun
      · rw [hend]
        exact fun s hnil => .ok hnil
      · intro hw
        rw [if_pos (htakes hw).1]
        exact ((htakes hw).2 a).bind fun b => (ih b).ends
      · intro hk hnext
        rw [if_pos hk]
        refine (hoff hk (Bool.not_eq_true _ ▸ hnext)).imp_right fun h => ?_
        exact (h a).bind fun b => (ih b).ends

theorem loop (hend : more .endOfInput = false) (hp : Progress more fun a => kind >>= f a)
    (hp' : Progress more fun a => kind >>= f' a)
    (hf : ∀ a k, more k = true → Tracks R (k = R.next → wants) o true (f a k) (f' a k))
    (hnot : o → ¬ wants) (ho : o → off)
    (htakes : wants → more R.wanted.kind = true ∧ ∀ a, Takes R (f' a R.wanted.kind))
    (hoff : more R.wanted.kind = true → more R.next = false →
      off ∨ ∀ a, Takes R (f' a R.wanted.kind)) (a : α) :
    Guides R wants off false (whileKind more (fun a => kind >>= f a) a)
      (whileKind more (fun a => kind >>= f' a) a) := by
  have hbounded := repeatWhile hend hf hnot ho htakes hoff
  have hfollows : ∀ us s s', s.Beside R us s' →
      Outcome R off (whileKind more (fun a => kind >>= f a) a s)
        (whileKind more (fun a => kind >>= f' a) a s') := by
    intro us s s' hs
    have h := (hbounded (s.pending ++ s'.pending) a).toSteers.follows hs
    have hle : s.pending.length ≤ (s.pending ++ s'.pending).length := by simp
    have hle' : s'.pending.length ≤ (s.pending ++ s'.pending).length := by simp
    rw [repeatWhile_eq_of_le hend hp (Nat.le_refl _) hle (Nat.le_refl _),
      repeatWhile_eq_of_le hend hp' (Nat.le_refl _) hle' (Nat.le_refl _)] at h
    exact h
  refine ⟨⟨⟨.whileKind (fun a k hk => (hf a k hk).moves) a, ?_, ?_⟩, hfollows []⟩, ?_, nofun⟩
  · intro hw s hs
    exact (hbounded s.pending a).misses hw s hs
  · exact fun t us => hfollows (t :: us)
  · intro s hnil
    exact (hbounded s.pending a).ends s hnil

theorem rounds (hend : more .endOfInput = false) (hp : Progress more fun a => kind >>= f a)
    (hp' : Progress more fun a => kind >>= f' a)
    (hf : ∀ a k, more k = true → Guides R (R.Wants k) off true (f a k) (f' a k)) (a : α) :
    Guides R False off false (whileKind more (fun a => kind >>= f a) a)
      (whileKind more (fun a => kind >>= f' a) a) := by
  refine loop (o := off) hend hp hp' (fun a k hk => (hf a k hk).toTracks.own) (fun _ => id) id
    False.elim ?_ a
  intro hk hnext
  refine .inr fun a => (hf a _ hk).takes rfl ⟨rfl, fun heq => ?_⟩
  rw [heq, hk] at hnext
  cases hnext

theorem delimited {d : Delimiter} {step step' : α → Parse α}
    (hstep : ∀ a, Guides R (R.Wants (.delimiter d)) off true (step a) (step' a))
    (hadvances : ∀ a, Advances true (step' a)) (a : α) :
    Guides R False off false (whileKind (· = .delimiter d) step a)
      (whileKind (· = .delimiter d) step' a) := by
  show Guides R False off false (whileKind (· = .delimiter d) (fun a => kind >>= fun _ => step a) a)
    (whileKind (· = .delimiter d) (fun a => kind >>= fun _ => step' a) a)
  refine rounds rfl (.of_advances fun a => (hstep a).moves.advances) (.of_advances hadvances)
    (fun a k hk => ?_) a
  obtain rfl := of_decide_eq_true hk
  exact hstep a

end Loops

theorem commaSeparated {item item' : Parse α} (hitem : Guides R wants off true item item')
    (hadvances : Advances true item') :
    Guides R wants off true (Parse.commaSeparated R.left item)
      (Parse.commaSeparated R.right item') := by
  have hround : ∀ items : List α, Guides R (R.Wants (.delimiter .comma)) off true
      (Parse.delimiter R.left .comma >>= fun _ => item >>= fun a => Pure.pure (a :: items))
      (Parse.delimiter R.right .comma >>= fun _ => item' >>= fun a => Pure.pure (a :: items)) :=
    fun items => (delimiter .comma).seq fun _ => hitem.map (· :: items)
  have hadvances' : ∀ items : List α, Advances true
      (Parse.delimiter R.right .comma >>= fun _ => item' >>= fun a => Pure.pure (a :: items)) :=
    fun items => (Advances.delimiter .comma).bind fun _ => hadvances.bind fun _ => .pure _
  exact hitem.bind (fun first => (delimited hround hadvances' [first]).map List.reverse)
    (fun _ => id) fun _ => id

end Guides

/-! ## Expressions -/

theorem strays_literal (hs : s.pending = R.ahead) : Strays R off (Grammar.literal R.left s) := by
  cases hvalue : Grammar.literal? (s.lookahead R.left) with
  | none =>
      rw [literal_of_none hvalue]
      refine .error fun hstuck => ?_
      cases hstuck with
      | error hstart _ => cases hstart
  | some value =>
      have hkind : (s.lookahead R.left).kind = R.next := by
        rw [← ParseState.kind_eq_lookahead, ParseState.kind_of_ahead hs]
      rw [literal_of_some hvalue]
      refine strays_eat ?_ hs (fun _ _ => .pure value) fun hw => hw.2 hkind.symm
      intro hend
      rw [Grammar.literal?, hend] at hvalue
      cases hvalue

theorem Outcome.literal {t : Token} (hs : s.Beside R (t :: us) s') :
    Outcome R off (Grammar.literal R.left s) (Grammar.literal R.right s') := by
  have hnext : s.lookahead R.left = t := by
    rw [ParseState.lookahead, hs.pending]
    rfl
  have hnext' : s'.lookahead R.right = t := by
    rw [ParseState.lookahead, hs.pending']
    rfl
  cases hvalue : Grammar.literal? t with
  | none =>
      rw [literal_of_none (hnext.symm ▸ hvalue)]
      refine .inr (.inr (.error fun hstuck => ?_))
      cases hstuck with
      | error hstart _ => cases hstart
  | some value =>
      rw [literal_of_some (hnext.symm ▸ hvalue), literal_of_some (hnext'.symm ▸ hvalue), hnext,
        hnext']
      rcases hs.eat t.kind fun _ => Pure.pure value with ⟨s₁, s₁', hok, hok', h₁, -⟩ | hstrays
      · rw [bind_of_ok hok, bind_of_ok hok']
        exact .inl ⟨value, s₁, s₁', us, rfl, rfl, h₁⟩
      · exact .inr (.inr hstrays)

theorem Tracks.literal {f f' : TokenKind → Parse Expr}
    (hf : ∀ k, Tracks R (k = R.next → wants) off true (f k) (f' k)) :
    Tracks R wants off true
      (kind >>= fun k => if k.isLiteral then Grammar.literal R.left else f k)
      (kind >>= fun k => if k.isLiteral then Grammar.literal R.right else f' k) where
  moves s hs := by
    rw [kind_bind]
    split
    · next hk => exact EndsFrom.literal hs hk
    · exact (hf s.kind).moves s hs
  misses hnot s hs := by
    rw [kind_bind]
    split
    · have hstrays : Strays R True (Grammar.literal R.left s) := strays_literal hs
      exact hstrays.not_stuck
    · exact (hf s.kind).misses (fun h => hnot (h (ParseState.kind_of_ahead hs))) s hs
  shared t us s s' hs := by
    rw [kind_bind, kind_bind, ParseState.kind_of_cons hs.pending,
      ParseState.kind_of_cons hs.pending']
    split
    · exact .literal hs
    · exact (hf t.kind).shared t us s s' hs

theorem Guides.literal {f f' : TokenKind → Parse Expr}
    (hf : ∀ k, Tracks R (k = R.next → wants) off true (f k) (f' k))
    (hends : EndsShort R.right (f' .endOfInput))
    (htakes : wants → R.wanted.kind.isLiteral = false ∧ Takes R (f' R.wanted.kind)) :
    Guides R wants off true
      (kind >>= fun k => if k.isLiteral then Grammar.literal R.left else f k)
      (kind >>= fun k => if k.isLiteral then Grammar.literal R.right else f' k) := by
  refine (Tracks.literal hf).guides ?_ fun hw => ?_
  · intro s hnil
    rw [kind_bind, kind_of_nil hnil]
    exact hends s hnil
  · refine Takes.kind_bind ?_
    rw [(htakes hw).1]
    exact (htakes hw).2

theorem Tracks.expressionExpected :
    Tracks R (R.wanted.kind = .identifier) off true (Grammar.expressionExpected R.left)
      (Grammar.expressionExpected R.right) where
  moves := .expressionExpected
  misses hnot s hs hstuck := by
    cases hp : s.pending with
    | nil =>
        rw [expressionExpected_of_nil hp] at hstuck
        cases hstuck with
        | error hstart _ => exact hnot (Option.some.inj hstart).symm
    | cons t rest =>
        rw [expressionExpected_of_cons hp] at hstuck
        cases hstuck with
        | error hstart _ => exact hnot (Option.some.inj hstart).symm
  shared t us s s' hs := by
    rw [expressionExpected_of_cons hs.pending]
    refine .inr (.inr (.error fun hstuck => ?_))
    exact hs.pending_ne hstuck.pending_eq

end Parse

end LetterLang

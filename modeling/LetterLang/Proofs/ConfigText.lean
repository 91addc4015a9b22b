import LetterLang.Config
import LetterLang.Proofs.JsonGrammar
import LetterLang.Proofs.NumberLiteral

/-!
# Reading configurations

A configuration depends only on the members that it knows. Members may come in any order, with any
blanks between the tokens and keys written with any escapes; all others are skipped, whatever their
values are, in the configuration and in its options of parsing.

- `JsonGrammar.IsObject`: the texts of objects, with the keys and the texts of the values.
- `JsonGrammar.Says`: what the members of an object say of one key.
- `JsonReader.record_reads`: a record is read from the members that its fields are named after.
- `Config.ofText_known_members`: a configuration is read from what its known members say.
-/

namespace LetterLang

open Text (byteLength)

/-! ## Objects -/

namespace JsonGrammar

inductive IsMember : String × List Char → List Char → Prop
  | text {key : String} {k ws ws' v} : Spells key.toList k → Blanks ws → Blanks ws' → IsValue v →
      IsMember (key, v) ('"' :: (k ++ '"' :: (ws ++ ':' :: (ws' ++ v))))

/-- The members that follow another one, up to the closing brace. -/
inductive AreMembers : List (String × List Char) → List Char → Prop
  | last {ws} : Blanks ws → AreMembers [] ws
  | more {m ms ws ws' i cs} : Blanks ws → Blanks ws' → IsMember m i → AreMembers ms cs →
      AreMembers (m :: ms) (ws ++ ',' :: (ws' ++ (i ++ cs)))

inductive IsObject : List (String × List Char) → List Char → Prop
  | empty {ws} : Blanks ws → IsObject [] ('{' :: (ws ++ ['}']))
  | members {m ms ws i cs} : Blanks ws → IsMember m i → AreMembers ms cs →
      IsObject (m :: ms) ('{' :: (ws ++ (i ++ (cs ++ ['}']))))

/-- What the members say of a key: nothing, so the default holds, or its value once. -/
inductive Says {α : Type} (key : String) (means : List Char → α → Prop) (default : α) :
    List (String × List Char) → α → Prop
  | nothing {ms} : (∀ m ∈ ms, m.1 ≠ key) → Says key means default ms default
  | once {before v after a} : (∀ m ∈ before, m.1 ≠ key) → (∀ m ∈ after, m.1 ≠ key) → means v a →
      Says key means default (before ++ (key, v) :: after) a

/-- The digits of a 32-bit word, without a leading zero. -/
def MeansWord (cs : List Char) (d : UInt32) : Prop :=
  Whole cs ∧ Nat.ofDigitChars 10 cs 0 = d.toNat

inductive MeansChoice : List Char → Option Bool → Prop
  | null : MeansChoice ['n', 'u', 'l', 'l'] none
  | true : MeansChoice ['t', 'r', 'u', 'e'] (some true)
  | false : MeansChoice ['f', 'a', 'l', 's', 'e'] (some false)

variable {α : Type} {key : String} {means : List Char → α → Prop} {default a : α}
  {m : String × List Char} {ms : List (String × List Char)} {v k i cs : List Char}

theorem Spells.characters {v : List Char} (h : Spells v cs) : Characters cs := by
  induction h with
  | nil => exact .nil
  | plain hc _ ih => exact .plain hc ih
  | short hx _ ih => exact .short hx ih
  | unicode hds _ ih => exact .unicode hds ih
  | pair hhs hls _ _ _ _ _ _ ih => exact .unicode hhs (.unicode hls ih)

theorem IsMember.isPart (h : IsMember m i) : IsPart (.item .curly) i := by
  cases h with
  | text hkey hws hws' hv => exact .member hkey.characters hws hws' hv

theorem AreMembers.isPart (h : AreMembers ms cs) : IsPart (.rest .curly) cs := by
  induction h with
  | last hws => exact .last hws
  | more hws hws' hm _ ih => exact .more hws hws' hm.isPart ih

theorem IsObject.isValue (h : IsObject ms cs) : IsValue cs := by
  cases h with
  | empty hws => exact .empty (b := .curly) hws
  | members hws hm hms => exact .items (b := .curly) hws hm.isPart hms.isPart

theorem Says.first (hv : means v a) (hms : ∀ m ∈ ms, m.1 ≠ key) :
    Says key means default ((key, v) :: ms) a := by
  have hnone : ∀ m ∈ ([] : List (String × List Char)), m.1 ≠ key := nofun
  exact .once hnone hms hv

theorem Says.later (hm : m.1 ≠ key) (h : Says key means default ms a) :
    Says key means default (m :: ms) a := by
  cases h with
  | nothing hnone => exact .nothing (List.forall_mem_cons.2 ⟨hm, hnone⟩)
  | once hbefore hafter hv => exact .once (List.forall_mem_cons.2 ⟨hm, hbefore⟩) hafter hv

theorem Says.tail (h : Says key means default (m :: ms) a) (hm : m.1 ≠ key) :
    Says key means default ms a := by
  generalize hall : m :: ms = all at h
  cases h with
  | nothing hnone =>
      subst hall
      exact .nothing fun m' hm' => hnone m' (List.mem_cons_of_mem m hm')
  | @once before v after _ hbefore hafter hv =>
      cases before with
      | nil =>
          cases hall
          exact absurd rfl hm
      | cons m' before =>
          cases hall
          exact .once (fun m' hm' => hbefore m' (List.mem_cons_of_mem _ hm')) hafter hv

theorem Says.head (h : Says key means default ((key, v) :: ms) a) :
    means v a ∧ ∀ m ∈ ms, m.1 ≠ key := by
  generalize hall : (key, v) :: ms = all at h
  cases h with
  | nothing hnone =>
      subst hall
      exact absurd rfl (hnone _ List.mem_cons_self)
  | @once before v after _ hbefore hafter hv =>
      cases before with
      | nil =>
          cases hall
          exact ⟨hv, hafter⟩
      | cons m' before =>
          cases hall
          exact absurd rfl (hbefore _ List.mem_cons_self)

end JsonGrammar

/-! ## Reading records -/

namespace JsonReader

open JsonCursor JsonGrammar

variable {α β σ : Type} {fields : List (Field σ)} {seen seen' : List String} {r r' : σ}
  {m : String × List Char} {ms : List (String × List Char)} {v i cs rest ws : List Char}
  {offset fuel : Nat}

/-- A reader that reads a text to a value, whatever blanks stand before it. -/
def ReadsTo (read : JsonReader α) (cs : List Char) (a : α) : Prop :=
  ∀ ws rest offset, Blanks ws → Stops rest →
    ∃ after, read ⟨ws ++ (cs ++ rest), offset⟩ = .ok (a, ⟨rest, after⟩)

theorem ReadsTo.map {read : JsonReader α} {a : α} (h : ReadsTo read cs a) (f : α → β) :
    ReadsTo (fun c => do
      let (a, c) ← read c
      return (f a, c)) cs (f a) := by
  intro ws rest offset hws hrest
  obtain ⟨after, hread⟩ := h ws rest offset hws hrest
  refine ⟨after, ?_⟩
  dsimp only
  rw [hread]
  rfl

inductive Takes (fields : List (Field σ)) (seen : List String) (r : σ) :
    String × List Char → List String → σ → Prop
  | other {k : String} {v : List Char} : fields.find? (·.name = k) = none →
      Takes fields seen r (k, v) seen r
  | field {k : String} {v : List Char} {f : Field σ} {r' : σ} :
      fields.find? (·.name = k) = some f → k ∉ seen → ReadsTo (f.read r) v r' →
      Takes fields seen r (k, v) (k :: seen) r'

inductive TakesAll (fields : List (Field σ)) :
    List String → σ → List (String × List Char) → σ → Prop
  | nil {s : List String} {a : σ} : TakesAll fields s a [] a
  | cons {s s' : List String} {a b c : σ} {m ms} : Takes fields s a m s' b →
      TakesAll fields s' b ms c → TakesAll fields s a (m :: ms) c

/-- What `members` does at the quote of a key. -/
def readMember (fields : List (Field σ)) (seen : List String) (r : σ) :
    JsonReader (σ × List String) := fun c => do
  let (key, c) ← string (c.advance 1)
  memberValue fields seen r key c

/-- A member is taken for its field, or skipped. -/
theorem readMember_takes (hm : IsMember m i) (ht : Takes fields seen r m seen' r')
    (hrest : Stops rest) (offset : Nat) :
    ∃ after, readMember fields seen r ⟨i ++ rest, offset⟩ = .ok ((r', seen'), ⟨rest, after⟩) := by
  cases hm with
  | @text key k ws ws' v hkey hws hws' hv =>
      obtain ⟨after, hstring⟩ :=
        string_spells hkey (ws ++ ':' :: (ws' ++ (v ++ rest))) (offset + 1)
      obtain ⟨after', hcolon⟩ := colon_leaves hws (ws' ++ (v ++ rest)) after
      have hread : readMember fields seen r
          ⟨'"' :: (k ++ '"' :: (ws ++ ':' :: (ws' ++ (v ++ rest)))), offset⟩ =
          memberValue fields seen r key ⟨ws ++ ':' :: (ws' ++ (v ++ rest)), after⟩ := by
        show (string ⟨k ++ '"' :: (ws ++ ':' :: (ws' ++ (v ++ rest))), offset + 1⟩ >>= _) = _
        rw [hstring, String.ofList_toList]
        rfl
      simp only [List.cons_append, List.append_assoc]
      rw [hread, memberValue]
      cases ht with
      | other hnone =>
          obtain ⟨after'', hskip⟩ := skipValue_leaves hws' hv hrest after'
          refine ⟨after'', ?_⟩
          rw [hnone, hcolon]
          show (skipValue ⟨ws' ++ (v ++ rest), after'⟩ >>= _) = _
          rw [hskip]
          rfl
      | @field _ _ f _ hfind hseen hfield =>
          obtain ⟨after'', hvalue⟩ := hfield ws' rest after' hws' hrest
          refine ⟨after'', ?_⟩
          rw [hfind]
          dsimp only
          rw [if_neg hseen, hcolon]
          show (f.read r ⟨ws' ++ (v ++ rest), after'⟩ >>= _) = _
          rw [hvalue]
          rfl

theorem members_append (hws : Blanks ws) (first : Bool) :
    members fields seen first r (fuel + 1) ⟨ws ++ rest, offset⟩ =
      members fields seen first r (fuel + 1) ⟨rest, offset + byteLength ws⟩ := by
  unfold members
  rw [skipBlanks_append hws]

theorem members_close (first : Bool) :
    members fields seen first r (fuel + 1) ⟨'}' :: rest, offset⟩ =
      .ok (r, ⟨rest, offset + 1⟩) :=
  rfl

theorem members_first : members fields seen true r (fuel + 1) ⟨'"' :: rest, offset⟩ =
    (readMember fields seen r ⟨'"' :: rest, offset⟩ >>= fun found =>
      members fields found.1.2 false found.1.1 fuel found.2) := by
  show (string ⟨rest, offset + 1⟩ >>= _) = ((string ⟨rest, offset + 1⟩ >>= _) >>= _)
  cases string ⟨rest, offset + 1⟩ with
  | error e => rfl
  | ok found => rfl

theorem members_comma (hws : Blanks ws) :
    members fields seen false r (fuel + 1) ⟨',' :: (ws ++ '"' :: rest), offset⟩ =
      (readMember fields seen r ⟨'"' :: rest, offset + 1 + byteLength ws⟩ >>= fun found =>
        members fields found.1.2 false found.1.1 fuel found.2) := by
  have hblank : skipBlanks ⟨ws ++ '"' :: rest, offset + 1⟩ =
      ⟨'"' :: rest, offset + 1 + byteLength ws⟩ := by
    rw [skipBlanks_append hws]
    rfl
  have hnext : members fields seen false r (fuel + 1) ⟨',' :: (ws ++ '"' :: rest), offset⟩ =
      members fields seen true r (fuel + 1) ⟨'"' :: rest, offset + 1 + byteLength ws⟩ := by
    have hadvance : advance ⟨',' :: (ws ++ '"' :: rest), offset⟩ 1 =
        ⟨ws ++ '"' :: rest, offset + 1⟩ := rfl
    rw [members, skipBlanks_of_not (by decide), hadvance, hblank]
    rfl
  rw [hnext, members_first]

theorem quote_of_isMember (h : IsMember m i) : ∃ tail, i = '"' :: tail := by
  cases h with
  | text => exact ⟨_, rfl⟩

/-- The members after another one are taken in order. -/
theorem members_takes (hms : AreMembers ms cs) (ht : TakesAll fields seen r ms r')
    (hfuel : ms.length < fuel) :
    ∃ after, members fields seen false r fuel ⟨cs ++ '}' :: rest, offset⟩ =
      .ok (r', ⟨rest, after⟩) := by
  induction hms generalizing seen r fuel offset with
  | last hws =>
      obtain ⟨fuel, rfl⟩ := exists_succ hfuel
      cases ht
      rw [members_append hws]
      exact ⟨_, members_close false⟩
  | @more m ms ws ws' i cs hws hws' hm hms ih =>
      obtain ⟨fuel, rfl⟩ := exists_succ hfuel
      rw [List.length_cons] at hfuel
      cases ht with
      | cons hfirst hothers =>
          have hstops : Stops (cs ++ '}' :: rest) := stops_of_rest (b := .curly) hms.isPart
          obtain ⟨after, hread⟩ :=
            readMember_takes hm hfirst hstops (offset + byteLength ws + 1 + byteLength ws')
          obtain ⟨tail, rfl⟩ := quote_of_isMember hm
          simp only [List.cons_append, List.append_assoc] at hread ⊢
          rw [members_append hws, members_comma hws', hread]
          exact ih hothers (Nat.lt_of_succ_lt_succ hfuel)

theorem length_le_of_areMembers (h : AreMembers ms cs) : ms.length ≤ cs.length := by
  induction h with
  | last _ => exact Nat.zero_le _
  | more _ _ _ _ ih =>
      simp only [List.length_cons, List.length_append]
      omega

/-- **A record is read from the members that its fields are named after.** -/
theorem record_reads (shape : Shape σ) (h : IsObject ms cs)
    (ht : TakesAll shape.fields [] shape.defaults ms r') : ReadsTo (record shape) cs r' := by
  intro ws rest offset hws _
  have hrecord : record shape ⟨ws ++ (cs ++ rest), offset⟩ =
      record shape ⟨cs ++ rest, offset + byteLength ws⟩ := by
    unfold record
    rw [skipBlanks_append hws]
  rw [hrecord]
  generalize offset + byteLength ws = offset
  cases h with
  | @empty ws hws =>
      cases ht
      rw [List.cons_append, List.append_assoc]
      show ∃ after, members shape.fields [] true shape.defaults _
        ⟨ws ++ '}' :: rest, offset + 1⟩ = _
      rw [members_append hws]
      exact ⟨_, members_close true⟩
  | @members m ms ws i cs hws hm hms =>
      cases ht with
      | cons hfirst hothers =>
          have hstops : Stops (cs ++ '}' :: rest) := stops_of_rest (b := .curly) hms.isPart
          obtain ⟨after, hread⟩ := readMember_takes hm hfirst hstops (offset + 1 + byteLength ws)
          obtain ⟨tail, rfl⟩ := quote_of_isMember hm
          have hlength := length_le_of_areMembers hms
          simp only [List.cons_append, List.append_assoc, List.nil_append] at hread ⊢
          show ∃ after, members shape.fields [] true shape.defaults
            ((ws ++ '"' :: (tail ++ (cs ++ '}' :: rest))).length + 1 + 1)
            ⟨ws ++ '"' :: (tail ++ (cs ++ '}' :: rest)), offset + 1⟩ = _
          rw [members_append hws, members_first, hread]
          refine members_takes hms hothers ?_
          simp only [List.length_cons, List.length_append]
          omega

/-! ## Typed values -/

theorem digits_of_whole (h : Whole cs) : Digits cs := by
  cases h with
  | zero => exact ⟨List.cons_ne_nil _ _, List.forall_mem_singleton.2 rfl⟩
  | digits _ hdigits => exact ⟨List.cons_ne_nil _ _, hdigits⟩

/-- More digits make no smaller number. -/
theorem le_ofDigitChars (ds : List Char) (n : Nat) : n ≤ Nat.ofDigitChars 10 ds n := by
  induction ds generalizing n with
  | nil => exact Nat.le_refl n
  | cons d ds ih =>
      rw [Nat.ofDigitChars_cons]
      exact Nat.le_trans (by omega) (ih _)

/-- Digits are gathered into the number that they stand for, where it is within the limit. -/
theorem gather_eq {limit n count : Nat} {ds : List Char} (h : Nat.ofDigitChars 10 ds n ≤ limit) :
    gather limit n count ds = (Nat.ofDigitChars 10 ds n, count + ds.length, []) := by
  induction ds generalizing n count with
  | nil => rfl
  | cons d ds ih =>
      rw [Nat.ofDigitChars_cons] at h ⊢
      have hnext := Nat.le_trans (le_ofDigitChars ds _) h
      rw [gather, if_neg (Nat.not_lt.2 hnext), ih h, List.length_cons, Nat.add_assoc,
        Nat.add_comm 1]

theorem number_whole (h : Whole cs) (hlimit : Nat.ofDigitChars 10 cs 0 ≤ digitsLimit)
    (hrest : Stops rest) (offset : Nat) : ∃ after, number false ⟨cs ++ rest, offset⟩ =
      .ok (.natural (Nat.ofDigitChars 10 cs 0), ⟨rest, after⟩) := by
  have hdigits := digits_of_whole h
  have htake : (cs ++ rest).takeWhile Text.isDigit = cs :=
    Text.takeWhile_append hdigits.2 (noDigit_of_stops hrest)
  have hzero : ¬ ((cs ++ rest).head? = some '0' ∧ 1 < cs.length) := by
    cases h with
    | zero => exact fun hlong => absurd hlong.2 (by decide)
    | digits hd _ => exact fun hlong => hd (Option.some.inj hlong.1)
  unfold number
  rw [startsWithDigit_append hdigits, if_pos rfl]
  dsimp only
  rw [htake, if_neg hzero, gather_eq hlimit, advance_append]
  dsimp only
  split
  · exact absurd rfl (hrest '.' rfl).2.1
  · exact absurd rfl (hrest 'e' rfl).2.2.1
  · exact absurd rfl (hrest 'E' rfl).2.2.2
  · exact ⟨_, rfl⟩

/-- **A 32-bit word is read from its digits.** -/
theorem word32_reads {d : UInt32} (h : MeansWord v d) : ReadsTo word32 v d := by
  obtain ⟨hwhole, hvalue⟩ := h
  intro ws rest offset hws hrest
  have hd := d.toNat_lt
  obtain ⟨after, hread⟩ := number_whole hwhole (by rw [hvalue, digitsLimit]; omega) hrest
    (offset + byteLength ws)
  obtain ⟨x, tail, rfl⟩ := List.exists_cons_of_ne_nil (digits_of_whole hwhole).1
  have hx : Text.isDigit x = true := (digits_of_whole hwhole).2 x List.mem_cons_self
  refine ⟨after, ?_⟩
  unfold word32
  rw [skipBlanks_append hws, List.cons_append, skipBlanks_of_not (isBlank_of_isDigit hx)]
  dsimp only
  split
  · next h => cases h
  · next h =>
    cases h
    cases hx
  · rw [if_pos (show startsWithDigit ⟨x :: (tail ++ rest), offset + byteLength ws⟩ = true from hx)]
    rw [List.cons_append] at hread
    rw [hread, hvalue]
    show (if d.toNat < UInt32.size then Except.ok (UInt32.ofNat d.toNat, _) else _) = _
    rw [if_pos hd, UInt32.ofNat_toNat]

theorem optional_reads {choice : Option Bool} (h : MeansChoice v choice) :
    ReadsTo (optional boolean) v choice := by
  intro ws rest offset hws _
  unfold optional
  rw [skipBlanks_append hws]
  cases h with
  | null => exact ⟨_, rfl⟩
  | true => exact ⟨_, rfl⟩
  | false => exact ⟨_, rfl⟩

end JsonReader

/-! ## Configurations -/

namespace JsonGrammar

variable {α : Type} {key : String} {means : List Char → α → Prop} {current a : α}
  {seen : List String} {m : String × List Char} {ms : List (String × List Char)} {v : List Char}

/-- What the members to come say of a key: nothing more once it was seen. -/
inductive Awaits (key : String) (means : List Char → α → Prop) (seen : List String) (current : α)
    (ms : List (String × List Char)) (a : α) : Prop
  | seen : key ∈ seen → (∀ m ∈ ms, m.1 ≠ key) → current = a → Awaits key means seen current ms a
  | unseen : key ∉ seen → Says key means current ms a → Awaits key means seen current ms a

theorem Awaits.eq_of_nil (h : Awaits key means seen current [] a) : current = a := by
  cases h with
  | seen _ _ heq => exact heq
  | unseen _ hsaid =>
      generalize hall : ([] : List (String × List Char)) = all at hsaid
      cases hsaid with
      | nothing _ => rfl
      | @once before v after _ hbefore hafter hv => cases before <;> cases hall

theorem Awaits.other (h : Awaits key means seen current (m :: ms) a) (hm : m.1 ≠ key) :
    Awaits key means seen current ms a := by
  cases h with
  | seen hseen hnone heq => exact .seen hseen (List.forall_mem_cons.1 hnone).2 heq
  | unseen hseen hsaid => exact .unseen hseen (hsaid.tail hm)

theorem Awaits.other_seen {k : String} (h : Awaits key means seen current ms a) (hk : k ≠ key) :
    Awaits key means (k :: seen) current ms a := by
  cases h with
  | seen hseen hnone heq => exact .seen (List.mem_cons_of_mem k hseen) hnone heq
  | unseen hseen hsaid =>
      exact .unseen (List.not_mem_cons_of_ne_of_not_mem (Ne.symm hk) hseen) hsaid

/-- The member with the key comes once, and its value stands. -/
theorem Awaits.own (h : Awaits key means seen current ((key, v) :: ms) a) :
    key ∉ seen ∧ means v a ∧ Awaits key means (key :: seen) a ms a := by
  cases h with
  | seen _ hnone _ => exact absurd rfl (hnone _ List.mem_cons_self)
  | unseen hseen hsaid =>
      obtain ⟨hv, hnone⟩ := hsaid.head
      exact ⟨hseen, hv, .seen List.mem_cons_self hnone rfl⟩

end JsonGrammar

namespace Config

open JsonReader JsonGrammar

variable {options options' : ParserOptions} {choice choice' : Option Bool} {d d' : UInt32}
  {seen : List String} {ms : List (String × List Char)} {v : List Char}

theorem options_take (h : Awaits "maxDepth" MeansWord seen d ms d') :
    TakesAll parserShape.fields seen ⟨d⟩ ms ⟨d'⟩ := by
  induction ms generalizing seen d with
  | nil =>
      obtain rfl := h.eq_of_nil
      exact .nil
  | cons m ms ih =>
      obtain ⟨k, v⟩ := m
      by_cases hk : k = "maxDepth"
      · subst hk
        obtain ⟨hseen, hv, hothers⟩ := h.own
        exact .cons (.field rfl hseen ((word32_reads hv).map ParserOptions.mk)) (ih hothers)
      · have hnone : parserShape.fields.find? (·.name = k) = none := by
          simp [parserShape, Ne.symm hk]
        exact .cons (.other hnone) (ih (h.other hk))

/-- What `parser` can be: an object that says how deep code may nest. -/
inductive MeansOptions : List Char → ParserOptions → Prop
  | object {members cs depth} : IsObject members cs → Says "maxDepth" MeansWord 128 members depth →
      MeansOptions cs ⟨depth⟩

theorem options_read (h : MeansOptions v options) : ReadsTo (record parserShape) v options := by
  cases h with
  | object hobject hsaid =>
      exact record_reads parserShape hobject (options_take (.unseen List.not_mem_nil hsaid))

theorem config_takes (hparser : Awaits "parser" MeansOptions seen options ms options')
    (hpretty : Awaits "pretty" MeansChoice seen choice ms choice') :
    TakesAll shape.fields seen ⟨options, choice⟩ ms ⟨options', choice'⟩ := by
  induction ms generalizing seen options choice with
  | nil =>
      obtain rfl := hparser.eq_of_nil
      obtain rfl := hpretty.eq_of_nil
      exact .nil
  | cons m ms ih =>
      obtain ⟨k, v⟩ := m
      by_cases hk : k = "parser"
      · subst hk
        obtain ⟨hseen, hv, hothers⟩ := hparser.own
        have hne : "parser" ≠ "pretty" := by decide
        have hread := (options_read hv).map fun options => Config.mk options choice
        exact .cons (.field rfl hseen hread) (ih hothers ((hpretty.other hne).other_seen hne))
      · by_cases hk' : k = "pretty"
        · subst hk'
          obtain ⟨hseen, hv, hothers⟩ := hpretty.own
          have hread := (optional_reads hv).map fun choice => Config.mk options choice
          exact .cons (.field rfl hseen hread) (ih ((hparser.other hk).other_seen hk) hothers)
        · have hnone : shape.fields.find? (·.name = k) = none := by
            simp [shape, Ne.symm hk, Ne.symm hk']
          exact .cons (.other hnone) (ih (hparser.other hk) (hpretty.other hk'))

/-- A configuration is read from an object that says what it is. -/
theorem ofText_of_isObject {text : String} {ws ws' cs : List Char}
    (htext : text.toList = ws ++ (cs ++ ws')) (hws : Blanks ws) (hws' : Blanks ws')
    (hobject : IsObject ms cs) (hparser : Says "parser" MeansOptions ⟨128⟩ ms options)
    (hpretty : Says "pretty" MeansChoice none ms choice) : ofText text = .ok ⟨options, choice⟩ := by
  have htakes := config_takes (.unseen List.not_mem_nil hparser) (.unseen List.not_mem_nil hpretty)
  have hstops : Stops ws' := by
    rw [← List.append_nil ws']
    exact stops_append hws' stops_nil
  obtain ⟨after, hread⟩ := record_reads shape hobject htakes ws ws' 0 hws hstops
  have hblank : (JsonCursor.skipBlanks ⟨ws', after⟩).rest = [] := by
    rw [← List.append_nil ws', skipBlanks_append hws']
    rfl
  rw [ofText, whole?, JsonCursor.ofText, htext, hread]
  show (if (JsonCursor.skipBlanks ⟨ws', after⟩).rest.isEmpty = true then Except.ok _ else _) = _
  rw [hblank]
  rfl

end Config

/-! ## Written configurations -/

namespace JsonGrammar

open Json (escapeChar)

variable {ms : List (String × Json)}

def writtenMembers (ms : List (String × Json)) : List (String × List Char) :=
  ms.map fun m => (m.1, m.2.compact.toList)

def writtenMember (m : String × Json) : List Char :=
  (Json.quote m.1).toList ++ (":".toList ++ m.2.compact.toList)

theorem isMember_written {key : String} {v : Json} (hv : IsValue v.compact.toList) :
    IsMember (key, v.compact.toList) (writtenMember (key, v)) := by
  have htext : writtenMember (key, v) =
      '"' :: (key.toList.flatMap escapeChar ++ '"' :: ([] ++ ':' :: ([] ++ v.compact.toList))) := by
    simp [writtenMember, Json.quote]
  rw [htext]
  exact .text (spells_flatMap _) blanks_nil blanks_nil hv

theorem areMembers_written (h : ∀ m ∈ ms, IsValue m.2.compact.toList) : ∃ cs,
    AreMembers (writtenMembers ms) cs ∧
    Json.Layout.oneLine.after 0 '}' (ms.map writtenMember) = cs ++ ['}'] := by
  induction ms with
  | nil => exact ⟨[], .last blanks_nil, rfl⟩
  | cons m ms ih =>
      obtain ⟨hv, hvs⟩ := List.forall_mem_cons.1 h
      obtain ⟨cs, hcs, hafter⟩ := ih hvs
      refine ⟨_, .more blanks_nil blanks_nil (isMember_written hv) hcs, ?_⟩
      rw [List.map_cons, Json.Layout.after, hafter]
      simp [Json.Layout.oneLine]

/-- **A written object is an object** whose members are the ones that were written. -/
theorem isObject_compact (h : ∀ m ∈ ms, IsValue m.2.compact.toList) :
    IsObject (writtenMembers ms) (Json.object ms).compact.toList := by
  have hlaid : (Json.object ms).compact.toList =
      Json.Layout.oneLine.enclosed 0 '}' '{' (ms.map writtenMember) :=
    Json.laid_compact.object 0
  rw [hlaid]
  cases ms with
  | nil => exact .empty blanks_nil
  | cons m ms =>
      obtain ⟨hv, hvs⟩ := List.forall_mem_cons.1 h
      obtain ⟨cs, hcs, hafter⟩ := areMembers_written hvs
      have htext : Json.Layout.oneLine.enclosed 0 '}' '{' ((m :: ms).map writtenMember) =
          '{' :: ([] ++ (writtenMember m ++ (cs ++ ['}']))) := by
        rw [List.map_cons, Json.Layout.enclosed, hafter]
        rfl
      rw [htext]
      exact .members blanks_nil (isMember_written hv) hcs

theorem whole_toDigits (n : Nat) : Whole (Nat.toDigits 10 n) := by
  have h := Text.isNumeral_digitsText n
  rw [Json.toList_digitsText] at h
  obtain ⟨d, ds, hds⟩ := List.exists_cons_of_ne_nil h.nonempty
  rw [hds] at h ⊢
  by_cases hd : d = '0'
  · subst hd
    rw [h.no_leading_zero rfl]
    exact .zero
  · exact .digits hd h.digits

theorem meansWord_compact (d : UInt32) : MeansWord (Json.natural d.toNat).compact.toList d := by
  have htext : (Json.natural d.toNat).compact.toList = Nat.toDigits 10 d.toNat := by
    rw [Json.compact, Json.scalarText, Json.toList_digitsText]
  rw [htext]
  exact ⟨whole_toDigits _, Nat.ofDigitChars_ten_toDigits⟩

theorem MeansWord.isValue {cs : List Char} {d : UInt32} (h : MeansWord cs d) : IsValue cs := by
  have hparts := Unsigned.parts h.1 .none .none
  rw [List.append_nil, List.append_nil] at hparts
  exact .unsigned hparts

theorem meansChoice_compact (choice : Option Bool) :
    MeansChoice ((choice.map Json.boolean).getD .null).compact.toList choice := by
  match choice with
  | none => exact .null
  | some true => exact .true
  | some false => exact .false

theorem MeansChoice.isValue {cs : List Char} {choice : Option Bool} (h : MeansChoice cs choice) :
    IsValue cs := by
  cases h with
  | null => exact .null
  | true => exact .true
  | false => exact .false

end JsonGrammar

namespace Config

open JsonReader JsonGrammar

theorem meansOptions_compact (options : ParserOptions) : MeansOptions
    (Json.object [("maxDepth", .natural options.maxDepth.toNat)]).compact.toList options := by
  have hword := meansWord_compact options.maxDepth
  exact .object (isObject_compact (List.forall_mem_singleton.2 hword.isValue)) (.first hword nofun)

theorem MeansOptions.isValue {cs : List Char} {options : ParserOptions}
    (h : MeansOptions cs options) : IsValue cs := by
  cases h with
  | object hobject _ => exact hobject.isValue

theorem ofText_compact (c : Config) : ofText c.toJson.compact = .ok c := by
  have hoptions := meansOptions_compact c.parser
  have hchoice := meansChoice_compact c.pretty
  have hobject : IsObject _ c.toJson.compact.toList :=
    isObject_compact (List.forall_mem_cons.2
      ⟨hoptions.isValue, List.forall_mem_singleton.2 hchoice.isValue⟩)
  have hpretty : "pretty" ≠ "parser" := by decide
  exact ofText_of_isObject (List.append_nil _).symm blanks_nil blanks_nil hobject
    (.first hoptions (List.forall_mem_singleton.2 hpretty))
    (.later hpretty.symm (.first hchoice nofun))

/-- **Reading a configuration depends only on the members that it knows.** Whatever else the object
holds, in whatever order and with whatever blanks, the nesting limit and the choice of pretty output
are what `parser`, in it `maxDepth`, and `pretty` say, or the defaults where they say nothing. So a
written configuration is read back. -/
theorem ofText_known_members :
    (∀ {text : String} {ws ws' cs : List Char} {ms : List (String × List Char)}
        {options : ParserOptions} {choice : Option Bool},
      text.toList = ws ++ (cs ++ ws') → Blanks ws → Blanks ws' → IsObject ms cs →
      Says "parser" MeansOptions ⟨128⟩ ms options → Says "pretty" MeansChoice none ms choice →
      ofText text = .ok ⟨options, choice⟩) ∧
    ∀ c : Config, ofText c.toJson.compact = .ok c :=
  ⟨ofText_of_isObject, ofText_compact⟩

/-- Known members among others at both levels: one of the others holds a member of a known name, and
a string with brackets and a quote; the key `parser` is written with an escape. -/
theorem ofText_known_members_nested :
    ofText (" \x7b\"x\": [\x7b\"maxDepth\":7\x7d, \"]\x7d\\\"\"], \"\\u0070arser\": " ++
      "\x7b\"maxDepth\":10, \"y\":\x7b\x7d\x7d, \"pretty\":true\x7d\n") =
      .ok ⟨⟨10⟩, some true⟩ := by
  have hspace : Blanks [' '] := List.forall_mem_singleton.2 (.inl rfl)
  have hline : Blanks ['\n'] := List.forall_mem_singleton.2 (.inr (.inr (.inl rfl)))
  have hinner := IsObject.members blanks_nil (.text (spells_flatMap "maxDepth".toList) blanks_nil
    blanks_nil (meansWord_compact 7).isValue) (.last blanks_nil)
  have hbrackets := (spells_flatMap [']', '}', '"']).characters
  have hother : IsValue _ := .items (b := .square) blanks_nil (.element hinner.isValue)
    (.more blanks_nil hspace (.element (.string hbrackets)) (.last blanks_nil))
  have hkey : Spells "parser".toList ("\\u0070".toList ++ "arser".toList) :=
    .unicode (.digits (k := 0) (l := 0) (m := 7) (n := 0) ⟨by decide, .inl rfl⟩
      ⟨by decide, .inl rfl⟩ ⟨by decide, .inl rfl⟩ ⟨by decide, .inl rfl⟩)
      (spells_flatMap "arser".toList)
  have hoptions : MeansOptions _ ⟨10⟩ :=
    .object (.members blanks_nil (.text (spells_flatMap "maxDepth".toList) blanks_nil blanks_nil
      (meansWord_compact 10).isValue) (.more blanks_nil hspace (.text (spells_flatMap "y".toList)
        blanks_nil blanks_nil (.empty (b := .curly) blanks_nil)) (.last blanks_nil)))
      (.first (meansWord_compact 10) (by decide))
  have hobject := IsObject.members blanks_nil
    (.text (spells_flatMap "x".toList) blanks_nil hspace hother)
    (.more blanks_nil hspace (.text hkey blanks_nil hspace hoptions.isValue)
      (.more blanks_nil hspace (.text (spells_flatMap "pretty".toList) blanks_nil blanks_nil .true)
        (.last blanks_nil)))
  exact ofText_known_members.1 (by decide +kernel) hspace hline hobject
    (.later (by decide) (.first hoptions (by decide)))
    (.later (by decide) (.later (by decide) (.first .true nofun)))

end Config

end LetterLang

import LetterLang.Proofs.Continuation
import LetterLang.Proofs.Persistence
import LetterLang.Proofs.Printed
import LetterLang.Proofs.Relocation
import LetterLang.Proofs.ScannedTokens

/-!
# Programs one after another

Two sources are put together, the second on a new line. The scanner reads the first one again and
then the second one, further behind; so the tokens are those of both, where the spans of the second
are shifted. The parser finds the program of the first source again and is then, at the same level
of nesting, before the tokens of the second, where it does what it does on the second source alone.

- `TokenStream.ofSource_append`: the tokens of the two sources put together.
- `Relocation.shift`: the parse of the second source, alone and behind the first.
- `parse_append`: the program of the two sources, or the error of the second one.
-/

namespace LetterLang

open Parse

open Text (byteLength isBlank)

/-! ## Shifted tokens -/

def Span.shifted (n : Nat) (span : Span) : Span :=
  ⟨UInt32.ofNat (span.start.toNat + n), span.length⟩

def Token.shifted (n : Nat) (t : Token) : Token :=
  { t with span := t.span.shifted n }

def Ending.shifted (n : Nat) : Ending → Ending
  | .complete offset => .complete (UInt32.ofNat (offset.toNat + n))
  | .fault e => .fault (e.movedTo (e.span.shifted n))

theorem ofNat_toNat_add (offset n : Nat) :
    UInt32.ofNat ((UInt32.ofNat offset).toNat + n) = UInt32.ofNat (offset + n) := by
  rw [UInt32.ofNat_add, UInt32.ofNat_add, UInt32.ofNat_toNat]

theorem Token.shifted_ofChars (k : TokenKind) (cs : List Char) (offset n : Nat) :
    (ofChars k cs offset).shifted n = ofChars k cs (offset + n) :=
  congrArg (fun start => Token.mk k _ ⟨start, _⟩) (ofNat_toNat_add offset n)

theorem ScanError.span_shifted (e : ScanError) (n : Nat) :
    (e.movedTo (e.span.shifted n)).span = e.span.shifted n := by
  cases e <;> rfl

theorem Ending.offset_shifted (ending : Ending) (n : Nat) :
    (ending.shifted n).offset = UInt32.ofNat (ending.offset.toNat + n) := by
  cases ending with
  | complete offset => rfl
  | fault e => exact congrArg Span.start (e.span_shifted n)

namespace Scanner

/-- **The scanner does not look at offsets.** -/
theorem Passes.shifted {s s' : Scanner} {ts : List Token} (h : Passes s ts s') (source : String)
    (n : Nat) : Passes ⟨source, s.position + n, s.rest⟩ (ts.map (Token.shifted n))
      ⟨source, s'.position + n, s'.rest⟩ := by
  have hadvance : ∀ (s : Scanner) (k : Nat),
      (⟨source, s.position + n, s.rest⟩ : Scanner).advance k =
        ⟨source, (s.advance k).position + n, (s.advance k).rest⟩ := by
    intro s k
    rw [advance, advance, Nat.add_right_comm]
  induction h with
  | done => exact .done
  | skip hc hr _ ih => exact .skip hc hr (hadvance _ _ ▸ ih)
  | token hc hr _ ih =>
      rw [List.map_cons, Token.shifted_ofChars]
      exact .token hc hr (hadvance _ _ ▸ ih)

theorem ending_shifted (s : Scanner) (source : String) (n : Nat) :
    ending ⟨source, s.position + n, s.rest⟩ = s.ending.shifted n := by
  have hoffset := ofNat_toNat_add s.position n
  unfold ending
  cases s.rest with
  | nil => exact congrArg Ending.complete hoffset.symm
  | cons c cs =>
      dsimp only
      split
      · exact congrArg (Ending.fault ∘ ScanError.unterminatedComment) hoffset.symm
      · rw [unmatched_cons, unmatched_cons]
        split
        · exact congrArg (Ending.fault ∘ ScanError.unterminatedString c) hoffset.symm
        · exact congrArg (Ending.fault ∘ ScanError.unexpectedCharacter c) hoffset.symm

theorem passes_takeWhile (source : String) (position : Nat) (cs : List Char) :
    Passes ⟨source, position, cs⟩ [] ⟨source, position + byteLength (cs.takeWhile isBlank),
      cs.dropWhile isBlank⟩ := by
  have hsplit := List.takeWhile_append_dropWhile (p := isBlank) (l := cs)
  by_cases hne : cs.takeWhile isBlank = []
  · rw [hne, List.nil_append] at hsplit
    rw [hne, hsplit]
    exact .done
  · have hblanks : ∀ c ∈ cs.takeWhile isBlank, isBlank c = true :=
      List.all_eq_true.1 List.all_takeWhile
    have hpasses := passes_run hne hblanks (Text.head?_dropWhile isBlank cs) source position
    rwa [hsplit] at hpasses

end Scanner

/-- **The tokens of two sources put together** are those of the first and, further behind, those of
the second. -/
theorem TokenStream.ofSource_append {first : String} {ts : List Token} {offset : UInt32}
    (h : ofSource first = ⟨ts, .complete offset⟩) (second : String) :
    ofSource (first ++ "\n" ++ second) =
      ⟨ts ++ (ofSource second).tokens.map (Token.shifted (first.utf8ByteSize + 1)),
        (ofSource second).ending.shifted (first.utf8ByteSize + 1)⟩ := by
  obtain ⟨last, hfirst, -, hending⟩ := Scanner.passes_stream (.ofSource first)
  change Scanner.Passes _ (ofSource first).tokens last at hfirst
  change (ofSource first).ending = last.ending at hending
  rw [h] at hfirst hending
  have hnil : last.rest = [] := Scanner.ending_complete_iff.1 ⟨offset, hending.symm⟩
  have hposition : last.position = first.utf8ByteSize := by
    have hbytes := hfirst.bytes
    rwa [hnil, Scanner.bytes_ofSource] at hbytes
  obtain ⟨last', hsecond, hhalts, hending'⟩ := Scanner.passes_stream (.ofSource second)
  generalize hsource : first ++ "\n" ++ second = source
  have hchars : source.toList = first.toList ++ '\n' :: second.toList := by
    rw [← hsource, String.toList_append, String.toList_append, List.append_assoc]
    rfl
  have hbefore := (hfirst.newline hnil source second.toList).streamAfter_eq []
  have hblanks := (Scanner.passes_takeWhile source (first.utf8ByteSize + 1)
    second.toList).streamAfter_eq (ts.reverse ++ [])
  have hbehind :=
    (hsecond.shifted source (first.utf8ByteSize + 1)).streamAfter_eq (ts.reverse ++ [])
  have hhalts : Scanner.Halts ⟨source, last'.position + (first.utf8ByteSize + 1), last'.rest⟩ :=
    hhalts
  rw [Scanner.streamAfter_of_halts hhalts, Scanner.ending_shifted, ← hending', List.append_nil,
    List.reverse_append, List.reverse_reverse, List.reverse_reverse] at hbehind
  rw [List.append_nil] at hbefore hblanks
  rw [hposition] at hbefore
  -- The scanner gets to the first character of the second source that is no blank, which is where
  -- it gets from the start of the second source.
  calc ofSource source
      = Scanner.streamAfter [] ⟨source, 0, first.toList ++ '\n' :: second.toList⟩ := by
        rw [← hchars]
        rfl
    _ = Scanner.streamAfter ts.reverse ⟨source, first.utf8ByteSize + 1, second.toList⟩ :=
        hbefore.trans hblanks.symm
    _ = ⟨ts ++ (ofSource second).tokens.map (Token.shifted (first.utf8ByteSize + 1)),
        (ofSource second).ending.shifted (first.utf8ByteSize + 1)⟩ := by
        refine Eq.trans ?_ hbehind
        exact congrArg (fun position => Scanner.streamAfter ts.reverse ⟨source, position, _⟩)
          (Nat.zero_add _).symm

/-! ## The second source behind the first -/

/-- The second span has as many bytes as the first and stands `n` bytes further behind. -/
def Span.MovedBy (n : Nat) (span span' : Span) : Prop :=
  span'.start.toNat = span.start.toNat + n ∧ span'.length = span.length

theorem Span.movedBy_shifted {n : Nat} {span : Span} (h : span.start.toNat + n < 2 ^ 32) :
    span.MovedBy n (span.shifted n) :=
  ⟨UInt32.toNat_ofNat_of_lt' h, rfl⟩

section Shift

variable {source : String} {n : Nat}

theorem TokenStream.offset_add_lt (hsize : source.utf8ByteSize + n < 2 ^ 32) :
    (ofSource source).ending.offset.toNat + n < 2 ^ 32 := by
  have hsource : source.utf8ByteSize < 2 ^ 32 := by omega
  obtain ⟨last, -, hoffset, hlast⟩ := exists_last hsource
  omega

theorem TokenStream.movedBy_shifted (hsize : source.utf8ByteSize + n < 2 ^ 32) {t : Token}
    (ht : t ∈ (ofSource source).tokens) : t.span.MovedBy n (t.shifted n).span := by
  have hstop := TokenStream.stop_le_offset (by omega) t ht
  have hend := TokenStream.offset_add_lt hsize
  rw [Span.stop] at hstop
  exact Span.movedBy_shifted (by omega)

/-- The parse of a source, alone and with its tokens `n` bytes further behind. -/
def Relocation.shift (limit : UInt32) (hsize : source.utf8ByteSize + n < 2 ^ 32) : Relocation where
  left := (TokenStream.ofSource source).setting limit
  right := ⟨limit, (TokenStream.ofSource source).ending.shifted n⟩
  Meets t u := u = t.shifted n ∧ t ∈ (TokenStream.ofSource source).tokens
  Corresponds := Span.MovedBy n
  limit_eq := rfl
  lexeme_eq h := h.1 ▸ rfl
  span := by
    rintro t u ⟨rfl, ht⟩
    exact TokenStream.movedBy_shifted hsize ht
  endSpan := by
    have hend := TokenStream.offset_add_lt hsize
    change Span.MovedBy n (.empty (TokenStream.ofSource source).ending.offset) _
    rw [Ending.offset_shifted]
    exact Span.movedBy_shifted hend
  complete := by
    rintro ⟨offset, h⟩
    exact ⟨_, congrArg (Ending.shifted n) h⟩
  fault := by
    intro e h
    have hend := TokenStream.offset_add_lt hsize
    rw [show (TokenStream.ofSource source).ending = .fault e from h] at hend
    refine ⟨_, congrArg (Ending.shifted n) h, ?_, ?_⟩
    · rw [ScanError.span_shifted]
    · rw [ScanError.span_shifted]
      exact Span.movedBy_shifted hend

theorem Relocation.meets_shift {limit : UInt32} (hsize : source.utf8ByteSize + n < 2 ^ 32) :
    List.Forall₂ (shift limit hsize).Meets (TokenStream.ofSource source).tokens
      ((TokenStream.ofSource source).tokens.map (Token.shifted n)) := by
  rw [List.forall₂_map_right_iff]
  exact List.forall₂_same.2 fun t ht => ⟨rfl, ht⟩

end Shift

/-! ## Streams one after another -/

namespace TokenStream

variable {ts us rest : List Token} {p : Program} {s : ParseState} {offset : UInt32}

/-- The parse of a longer stream finds the program again, or fails for what comes after it. -/
theorem parse_goesOn {L : Prolongation} (hok : Program.parse L.left ⟨ts, [], 0⟩ = .ok p s) :
    (∃ s', s.GoesOn L s' ∧ (⟨ts ++ L.rest, L.right.ending⟩ : TokenStream).parse L.right.limit =
      (Program.parse L.right >>= fun q => pure ⟨p.body ++ q.body⟩) s') ∨
    ∃ e s', L.rest = [] ∧ L.right.ending = .fault e ∧
      (⟨ts ++ L.rest, L.right.ending⟩ : TokenStream).parse L.right.limit =
        .error (.failed (.scan e)) s' := by
  by_cases hstart : ts ++ L.rest = [] → L.right.Complete
  · have hgoesOn : ParseState.GoesOn L ⟨ts, [], 0⟩ ⟨ts ++ L.rest, [], 0⟩ := by
      refine ⟨rfl, rfl, fun hts hrest => hstart ?_⟩
      exact List.append_eq_nil_iff.2 ⟨hts, hrest⟩
    rw [parse_eq hstart]
    exact Program.parse_goesOn hgoesOn hok
  · obtain ⟨hnil, hnot⟩ := Classical.not_imp.1 hstart
    obtain ⟨e, he⟩ := (complete_or_fault L.right).resolve_left hnot
    rw [hnil, he]
    exact .inr ⟨e, _, (List.append_eq_nil_iff.1 hnil).2, rfl, rfl⟩

/-- **A stream behind a program** is parsed as it is alone. -/
theorem parse_behind {R : Relocation}
    (hok : Program.parse ⟨R.right.limit, .complete offset⟩ ⟨ts, [], 0⟩ = .ok p s)
    (hnil : s.pending = []) (hdepth : s.depth = 0) (hmeets : List.Forall₂ R.Meets us rest)
    (helse : ∀ t ∈ rest.head?, t.kind ≠ .keyword .elseWord) :
    (∃ q, outcome R.left ((⟨us, R.left.ending⟩ : TokenStream).parse R.left.limit) = .ok q ∧
      outcome R.right ((⟨ts ++ rest, R.right.ending⟩ : TokenStream).parse R.right.limit) =
        .ok ⟨p.body ++ q.body⟩) ∨
    ∃ e e', outcome R.left ((⟨us, R.left.ending⟩ : TokenStream).parse R.left.limit) = .error e ∧
      outcome R.right ((⟨ts ++ rest, R.right.ending⟩ : TokenStream).parse R.right.limit) =
        .error e' ∧
      e' = e.movedTo e'.span ∧ R.Corresponds e.span e'.span := by
  let L : Prolongation := ⟨⟨R.right.limit, .complete offset⟩, R.right, rest, rfl, helse⟩
  rcases parse_goesOn (L := L) hok with ⟨s', hs', heq⟩ | ⟨e', s', hrest, he', heq⟩
  · rw [show (⟨ts ++ rest, R.right.ending⟩ : TokenStream).parse R.right.limit = _ from heq]
    have hstart : us = [] → R.left.Complete := by
      rintro rfl
      obtain ⟨offset', hcomplete⟩ := hs'.scanned hnil (List.forall₂_nil_left_iff.1 hmeets)
      refine (complete_or_fault R.left).resolve_right ?_
      rintro ⟨e, he⟩
      obtain ⟨e', he', -⟩ := R.fault he
      cases hcomplete.symm.trans he'
    rw [show (⟨us, R.left.ending⟩ : TokenStream).parse R.left.limit =
      Program.parse R.left ⟨us, [], 0⟩ from parse_eq hstart]
    have hmirrors : ParseState.Mirrors R ⟨us, [], 0⟩ s' := by
      refine ⟨hdepth.symm.trans hs'.depth, ?_⟩
      rw [hs'.pending, hnil]
      exact hmeets
    have hmirrored := Program.parse_mirrors (R := R) _ _ hmirrors
    generalize hleft : Program.parse R.left ⟨us, [], 0⟩ = r at hmirrored
    generalize hright : Program.parse R.right s' = r' at hmirrored
    cases hmirrored with
    | ok _ =>
        rw [bind_of_ok hright]
        exact .inl ⟨_, rfl, rfl⟩
    | failed he hplace =>
        rw [bind_of_error hright]
        exact .inr ⟨_, _, rfl, rfl, he, hplace⟩
    | outOfCalls => exact absurd hleft (Program.parse_ne_outOfCalls _)
  · rw [show (⟨ts ++ rest, R.right.ending⟩ : TokenStream).parse R.right.limit = _ from heq]
    obtain rfl : rest = [] := hrest
    obtain rfl := List.forall₂_nil_right_iff.1 hmeets
    cases he : R.left.ending with
    | complete offset' =>
        obtain ⟨offset', hcomplete⟩ := R.complete ⟨offset', he⟩
        cases hcomplete.symm.trans he'
    | fault e =>
        obtain ⟨moved, hmoved, hsame, hplace⟩ := R.fault he
        obtain rfl : moved = e' := Ending.fault.inj (hmoved.symm.trans he')
        exact .inr ⟨.scan e, .scan moved, rfl, rfl, congrArg ParseError.scan hsame, hplace⟩

end TokenStream

/-! ## Sources one after another -/

variable {limit : UInt32} {first second : String}

theorem not_else_of_parse {source : String} {p : Program} (h : parse limit source = .ok p) :
    ∀ t ∈ (TokenStream.ofSource source).tokens.head?, t.kind ≠ .keyword .elseWord := by
  obtain ⟨s, hparse⟩ := parse_eq_ok.1 h
  obtain ⟨hstart, hprogram⟩ := TokenStream.parse_eq_ok.1 hparse
  obtain ⟨-, hderives⟩ := Program.parse_sound (TokenStream.faces_start hstart) hprogram
  have hfirst := DerivesStatements.starts hderives nofun
  intro t ht
  obtain ⟨rest, hrest⟩ := List.head?_eq_some_iff.1 ht
  rw [hrest] at hfirst
  exact hfirst

/-- The parse of two sources put together goes as the parse of the second one alone. -/
theorem parse_append_cases {p : Program}
    (hsize : second.utf8ByteSize + (first.utf8ByteSize + 1) < 2 ^ 32)
    (h : parse limit first = .ok p)
    (helse : ∀ t ∈ (TokenStream.ofSource second).tokens.head?, t.kind ≠ .keyword .elseWord) :
    (∃ q, parse limit second = .ok q ∧
      parse limit (first ++ "\n" ++ second) = .ok ⟨p.body ++ q.body⟩) ∨
    ∃ e e', parse limit second = .error e ∧ parse limit (first ++ "\n" ++ second) = .error e' ∧
      e' = e.movedTo e'.span ∧ e.span.MovedBy (first.utf8ByteSize + 1) e'.span := by
  obtain ⟨ts, s, htokens, hparse, -, hnil⟩ := consumed_of_parse h
  obtain ⟨offset, hstream⟩ := tokenize_eq_ok.1 htokens
  have hdepth : s.depth = 0 := by
    have hreach := (TokenStream.ofSource first).reaches_parse limit
    rw [hparse] at hreach
    exact hreach.leads.depth
  rw [hstream, TokenStream.parse_eq fun _ => ⟨_, rfl⟩] at hparse
  rw [parse_eq_outcome, parse_eq_outcome, TokenStream.ofSource_append hstream second]
  refine TokenStream.parse_behind (R := .shift limit hsize) hparse hnil hdepth
    (Relocation.meets_shift hsize) ?_
  simpa [Token.shifted] using helse

/-- **Programs one after another.** A source is put on a new line behind a source with a program. If
the second source has a program too, the two together have the statements of the first and then
those of the second. If it has an error, and does not start with an `else`, the two together have
the same error, with its span moved by the bytes that come before the second source. -/
theorem parse_append {limit : UInt32} {first second : String} {p : Program}
    (hsize : first.utf8ByteSize + second.utf8ByteSize < 2 ^ 32 - 1)
    (h : parse limit first = .ok p) :
    (∀ q, parse limit second = .ok q →
      parse limit (first ++ "\n" ++ second) = .ok ⟨p.body ++ q.body⟩) ∧
    ∀ e, parse limit second = .error e →
      (∀ t ∈ (TokenStream.ofSource second).tokens.head?, t.kind ≠ .keyword .elseWord) →
      ∃ e', parse limit (first ++ "\n" ++ second) = .error e' ∧ e' = e.movedTo e'.span ∧
        e'.span.start.toNat = e.span.start.toNat + (first.utf8ByteSize + 1) ∧
        e'.span.length = e.span.length := by
  have hsize : second.utf8ByteSize + (first.utf8ByteSize + 1) < 2 ^ 32 := by omega
  constructor
  · intro q hq
    rcases parse_append_cases hsize h (not_else_of_parse hq) with ⟨q', hq', hok⟩ | ⟨e, -, he, -⟩
    · cases hq.symm.trans hq'
      exact hok
    · cases hq.symm.trans he
  · intro e he helse
    rcases parse_append_cases hsize h helse with ⟨q, hq, -⟩ | ⟨e₁, e', he₁, he', hsame, hmoved⟩
    · cases he.symm.trans hq
    · cases he.symm.trans he₁
      exact ⟨e', he', hsame, hmoved⟩

/-- The second source misses its semicolon, alone and behind a program. -/
theorem parse_append_semicolon :
    parse 8 "b" = .error (.grammar (.unexpectedEnd (.token (.delimiter .semicolon)) 1)) ∧
      ∃ e, parse 8 ("a;" ++ "\n" ++ "b") = .error e ∧
        e = .grammar (.unexpectedEnd (.token (.delimiter .semicolon)) e.span.start) ∧
        e.span.start.toNat = 4 := by
  have hfirst : TokenStream.ofSource "a;" =
      ⟨[⟨.identifier, "a", ⟨0, 1⟩⟩, ⟨.delimiter .semicolon, ";", ⟨1, 1⟩⟩], .complete 2⟩ := by
    decide +kernel
  have hsecond : TokenStream.ofSource "b" = ⟨[⟨.identifier, "b", ⟨0, 1⟩⟩], .complete 1⟩ := by
    decide +kernel
  have hok : parse 8 "a;" = .ok ⟨[.expression (.identifier "a")]⟩ := by
    rw [parse_eq_outcome, hfirst]
    rfl
  have herror : parse 8 "b" =
      .error (.grammar (.unexpectedEnd (.token (.delimiter .semicolon)) 1)) := by
    rw [parse_eq_outcome, hsecond]
    rfl
  obtain ⟨e, he, hsame, hstart, -⟩ := (parse_append (by decide) hok).2 _ herror (by
    rw [hsecond]
    decide)
  exact ⟨herror, e, he, hsame, hstart⟩

end LetterLang

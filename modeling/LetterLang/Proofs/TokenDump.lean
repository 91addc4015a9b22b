import LetterLang.Cli.Run
import LetterLang.Proofs.ErrorSpan
import LetterLang.Proofs.LexemeText
import LetterLang.Proofs.NumberText

/-!
# Token dumps

Nothing of the tokens of a source is lost in their dump. A token takes one line, because no line
feed stands in a quoted text, and each part of the line says where it ends: the kind at the first
space, the text at the first quote that no backslash escapes, the numbers at the first character
that is no digit.

- `Text.unescape?_escapeChar`: a quoted character is read back, whatever follows it.
- `Token.display_append_inj`: tokens that are shown alike are the same.
- `Text.IsLines`: a text of lines.
- `Cli.dump_faithful`: the dump of a source has a line for each token and tells its tokens.
-/

namespace LetterLang

attribute [local instance] natPow

/-! ## Quoted texts -/

namespace Text

variable {r r' : List Char}

/-- The characters that may follow a backslash, and what they then stand for. -/
def shortEscapes : List (Char × Char) :=
  [('"', '"'), ('\\', '\\'), ('n', '\n'), ('r', '\r'), ('t', '\t'), ('0', '\x00')]

def ofHexadecimal (ds : List Char) : Nat :=
  ds.foldl (fun n d => 16 * n + (JsonReader.hexValue? d).getD 0) 0

/-- Reads one character of a quoted text: the character, and what comes after it. -/
def unescape? : List Char → Option (Char × List Char)
  | [] => none
  | '\\' :: 'u' :: '{' :: rest =>
    let digits := rest.takeWhile (· ≠ '}')
    some (Char.ofNat (ofHexadecimal digits), rest.drop (digits.length + 1))
  | '\\' :: x :: rest => (shortEscapes.lookup x).map (·, rest)
  | c :: rest => some (c, rest)

theorem ofHexadecimal_hexadecimal (n : Nat) : ofHexadecimal (hexadecimal n) = n := by
  have hdigit : ∀ d < 16, (JsonReader.hexValue? (Nat.digitChar d)).getD 0 = d := by decide
  induction n using Nat.strongRecOn with
  | ind n ih =>
      rcases Nat.lt_or_ge n 16 with hlt | hge
      · rw [hexadecimal, Nat.toDigits_of_lt_base hlt, ofHexadecimal, List.foldl_cons,
          List.foldl_nil, hdigit n hlt]
        omega
      · have hfirst := ih (n / 16) (by omega)
        rw [hexadecimal, ofHexadecimal] at hfirst
        rw [hexadecimal, Nat.toDigits_of_base_le (by decide) hge, ofHexadecimal, List.foldl_append,
          hfirst, List.foldl_cons, List.foldl_nil, hdigit (n % 16) (by omega)]
        omega

theorem exists_of_mem_hexadecimal {c : Char} (n : Nat) (hc : c ∈ hexadecimal n) :
    ∃ d < 16, c = Nat.digitChar d := by
  induction n using Nat.strongRecOn with
  | ind n ih =>
      rcases Nat.lt_or_ge n 16 with hlt | hge
      · rw [hexadecimal, Nat.toDigits_of_lt_base hlt, List.mem_singleton] at hc
        exact ⟨n, hlt, hc⟩
      · rw [hexadecimal, Nat.toDigits_of_base_le (by decide) hge, List.mem_append,
          List.mem_singleton] at hc
        rcases hc with hc | hc
        · exact ih (n / 16) (by omega) hc
        · exact ⟨n % 16, by omega, hc⟩

/-- No digit closes an escape or ends a line. -/
theorem ne_of_mem_hexadecimal {c : Char} {n : Nat} (hc : c ∈ hexadecimal n) :
    c ≠ '}' ∧ c ≠ '\n' := by
  have hall : ∀ d < 16, Nat.digitChar d ≠ '}' ∧ Nat.digitChar d ≠ '\n' := by decide
  obtain ⟨d, hd, rfl⟩ := exists_of_mem_hexadecimal n hc
  exact hall d hd

theorem escapeChar_cases (c : Char) :
    (∃ x, escapeChar c = ['\\', x] ∧ (x, c) ∈ shortEscapes) ∨
    (escapeChar c = [c] ∧ c ≠ '"' ∧ c ≠ '\\' ∧ c ≠ '\n') ∨
    escapeChar c = '\\' :: 'u' :: '{' :: (hexadecimal c.toNat ++ ['}']) := by
  unfold escapeChar
  split
  · next h => exact .inl ⟨'"', rfl, by rw [h]; decide⟩
  split
  · next h => exact .inl ⟨'\\', rfl, by rw [h]; decide⟩
  split
  · next h => exact .inl ⟨'n', rfl, by rw [h]; decide⟩
  split
  · next h => exact .inl ⟨'r', rfl, by rw [h]; decide⟩
  split
  · next h => exact .inl ⟨'t', rfl, by rw [h]; decide⟩
  split
  · next h => exact .inl ⟨'0', rfl, by rw [h]; decide⟩
  split
  · next hquote hslash hline _ _ _ _ => exact .inr (.inl ⟨rfl, hquote, hslash, hline⟩)
  · exact .inr (.inr rfl)

/-- **A quoted character is read back**, whatever follows it. -/
theorem unescape?_escapeChar (c : Char) (r : List Char) :
    unescape? (escapeChar c ++ r) = some (c, r) := by
  rcases escapeChar_cases c with ⟨x, hx, hshort⟩ | ⟨hx, -, hslash, -⟩ | hx
  · have hall : ∀ p ∈ shortEscapes, p.1 ≠ 'u' ∧ shortEscapes.lookup p.1 = some p.2 := by decide
    obtain ⟨hu, hlookup⟩ := hall (x, c) hshort
    rw [hx]
    show unescape? ('\\' :: x :: r) = _
    unfold unescape?
    split
    · next h => cases h
    · next h => exact absurd (List.cons.inj (List.cons.inj h).2).1 hu
    · next h =>
      cases h
      rw [hlookup]
      rfl
    · next hother h =>
      cases h
      exact absurd rfl (hother x r rfl)
  · rw [hx]
    show unescape? (c :: r) = _
    unfold unescape?
    split
    · next h => cases h
    · next h => exact absurd (List.cons.inj h).1 hslash
    · next h => exact absurd (List.cons.inj h).1 hslash
    · next h =>
      cases h
      rfl
  · have hdigits : ∀ d ∈ hexadecimal c.toNat, decide (d ≠ '}') = true := fun d hd =>
      decide_eq_true (ne_of_mem_hexadecimal hd).1
    have htake : (hexadecimal c.toNat ++ '}' :: r).takeWhile (· ≠ '}') =
        hexadecimal c.toNat :=
      Text.takeWhile_append hdigits rfl
    have hdrop : (hexadecimal c.toNat ++ '}' :: r).drop ((hexadecimal c.toNat).length + 1) = r :=
      List.drop_length_add_append 1
    rw [hx]
    simp only [List.cons_append, List.append_assoc, List.nil_append]
    rw [unescape?, htake, hdrop, ofHexadecimal_hexadecimal, Char.ofNat_toNat]

theorem escapeChar_append_inj {c d : Char} (h : escapeChar c ++ r = escapeChar d ++ r') :
    c = d ∧ r = r' := by
  have hread := unescape?_escapeChar c r
  rw [h, unescape?_escapeChar] at hread
  cases hread
  exact ⟨rfl, rfl⟩

/-- No character is quoted as what ends a text. -/
theorem escapeChar_append_ne (c : Char) : escapeChar c ++ r ≠ '"' :: r' := by
  intro h
  rcases escapeChar_cases c with ⟨x, hx, -⟩ | ⟨hx, hquote, -, -⟩ | hx
  · rw [hx] at h
    cases h
  · rw [hx] at h
    exact hquote (List.cons.inj h).1
  · rw [hx] at h
    cases h

theorem flatMap_escapeChar_append_inj {cs ds : List Char}
    (h : cs.flatMap escapeChar ++ '"' :: r = ds.flatMap escapeChar ++ '"' :: r') :
    cs = ds ∧ r = r' := by
  induction cs generalizing ds with
  | nil =>
      cases ds with
      | nil => exact ⟨rfl, (List.cons.inj h).2⟩
      | cons d ds =>
          rw [List.flatMap_cons, List.append_assoc] at h
          exact absurd h.symm (escapeChar_append_ne d)
  | cons c cs ih =>
      rw [List.flatMap_cons, List.append_assoc] at h
      cases ds with
      | nil => exact absurd h (escapeChar_append_ne c)
      | cons d ds =>
          rw [List.flatMap_cons, List.append_assoc] at h
          obtain ⟨rfl, hrest⟩ := escapeChar_append_inj h
          obtain ⟨rfl, hr⟩ := ih hrest
          exact ⟨rfl, hr⟩

theorem toList_quoted (s : String) (r : List Char) :
    (quoted s).toList ++ r = '"' :: (s.toList.flatMap escapeChar ++ '"' :: r) := by
  simp [quoted]

/-- Two texts that are quoted alike, whatever follows them, are the same. -/
theorem quoted_append_inj {s s' : String} (h : (quoted s).toList ++ r = (quoted s').toList ++ r') :
    s = s' ∧ r = r' := by
  rw [toList_quoted, toList_quoted] at h
  obtain ⟨hchars, hr⟩ := flatMap_escapeChar_append_inj (List.cons.inj h).2
  exact ⟨String.toList_inj.1 hchars, hr⟩

theorem newline_not_mem_escapeChar (c : Char) : '\n' ∉ escapeChar c := by
  intro hmem
  rcases escapeChar_cases c with ⟨x, hx, hshort⟩ | ⟨hx, -, -, hline⟩ | hx
  · have hall : ∀ p ∈ shortEscapes, '\n' ∉ ['\\', p.1] := by decide
    exact hall (x, c) hshort (hx ▸ hmem)
  · rw [hx, List.mem_singleton] at hmem
    exact hline hmem.symm
  · rw [hx] at hmem
    simp only [List.mem_cons, List.mem_append, List.not_mem_nil, or_false] at hmem
    rcases hmem with h | h | h | h | h
    any_goals cases h
    exact (ne_of_mem_hexadecimal h).2 rfl

theorem newline_not_mem_quoted (s : String) : '\n' ∉ (quoted s).toList := by
  intro hmem
  have hquote := toList_quoted s []
  rw [List.append_nil] at hquote
  rw [hquote, List.mem_cons, List.mem_append, List.mem_singleton, List.mem_flatMap] at hmem
  rcases hmem with h | ⟨c, -, h⟩ | h
  · cases h
  · exact newline_not_mem_escapeChar c h
  · cases h

end Text

/-! ## Shown tokens -/

namespace TokenKind

theorem mem_all (k : TokenKind) : k ∈ all := by
  cases k with
  | delimiter d => cases d <;> decide
  | keyword w => cases w <;> decide
  | _ => decide

theorem name_word (k : TokenKind) : ∀ c ∈ k.name.toList, decide (c ≠ ' ' ∧ c ≠ '\n') = true := by
  have hall : ∀ k ∈ all, k.name.toList.all (fun c => c ≠ ' ' ∧ c ≠ '\n') = true := by
    decide +kernel
  exact List.all_eq_true.1 (hall k k.mem_all)

theorem name_inj {j k : TokenKind} (h : j.name = k.name) : j = k := by
  have hall : ∀ j ∈ all, ∀ k ∈ all, j.name = k.name → j = k := by decide +kernel
  exact hall j j.mem_all k k.mem_all h

end TokenKind

/-- Numbers that are written alike, before what is no digit, are the same. -/
theorem toDigits_append_inj {m n : Nat} {r r' : List Char}
    (hr : r.head?.any Text.isDigit = false) (hr' : r'.head?.any Text.isDigit = false)
    (h : Nat.toDigits 10 m ++ r = Nat.toDigits 10 n ++ r') : m = n ∧ r = r' := by
  obtain ⟨hdigits, hrest⟩ := Text.run_append_inj (Binary64.allDigits_toDigits m)
    (Binary64.allDigits_toDigits n) hr hr' h
  have hvalue := congrArg (Nat.ofDigitChars 10 · 0) hdigits
  simp only [Nat.ofDigitChars_ten_toDigits] at hvalue
  exact ⟨hvalue, hrest⟩

theorem Span.toList_text (s : Span) (r : List Char) : s.text.toList ++ r =
    Nat.toDigits 10 s.start.toNat ++ '.' :: '.' :: (Nat.toDigits 10 s.stop ++ r) := by
  have hdots : (toString "..").toList = ['.', '.'] := rfl
  simp [text, hdots]

theorem Span.text_append_inj {s s' : Span} {r r' : List Char}
    (hr : r.head?.any Text.isDigit = false) (hr' : r'.head?.any Text.isDigit = false)
    (h : s.text.toList ++ r = s'.text.toList ++ r') : s = s' ∧ r = r' := by
  rw [toList_text, toList_text] at h
  obtain ⟨hstart, h⟩ := toDigits_append_inj rfl rfl h
  obtain ⟨hstop, hrest⟩ := toDigits_append_inj hr hr' (List.cons.inj (List.cons.inj h).2).2
  have hlength : s.length.toNat = s'.length.toNat := by
    rw [stop, stop, hstart] at hstop
    exact Nat.add_left_cancel hstop
  exact ⟨congrArg₂ Span.mk (UInt32.toNat_inj.1 hstart) (UInt32.toNat_inj.1 hlength), hrest⟩

theorem Span.newline_not_mem_text (s : Span) : '\n' ∉ s.text.toList := by
  have hdigits : ∀ n, '\n' ∉ Nat.toDigits 10 n := fun n hmem =>
    absurd (Binary64.allDigits_toDigits n '\n' hmem) (by decide)
  have htext := toList_text s []
  rw [List.append_nil, List.append_nil] at htext
  simp [htext, hdigits]

namespace Token

variable {t t' : Token} {r r' : List Char}

theorem toList_display (t : Token) (r : List Char) : t.display.toList ++ r =
    t.kind.name.toList ++ ' ' :: ((Text.quoted t.text).toList ++
      ' ' :: '@' :: (t.span.text.toList ++ r)) := by
  simp [display]

/-- **Tokens that are shown alike**, before the end of a line, **are the same.** -/
theorem display_append_inj
    (h : t.display.toList ++ '\n' :: r = t'.display.toList ++ '\n' :: r') : t = t' ∧ r = r' := by
  rw [toList_display, toList_display] at h
  obtain ⟨hkind, h⟩ := Text.run_append_inj t.kind.name_word t'.kind.name_word rfl rfl h
  obtain ⟨htext, h⟩ := Text.quoted_append_inj (List.cons.inj h).2
  obtain ⟨hspan, h⟩ := Span.text_append_inj rfl rfl (List.cons.inj (List.cons.inj h).2).2
  refine ⟨?_, (List.cons.inj h).2⟩
  cases t
  cases t'
  cases TokenKind.name_inj (String.toList_inj.1 hkind)
  cases htext
  cases hspan
  rfl

theorem newline_not_mem_display (t : Token) : '\n' ∉ t.display.toList := by
  have hkind : '\n' ∉ t.kind.name.toList := fun hmem =>
    (of_decide_eq_true (t.kind.name_word '\n' hmem)).2 rfl
  have htext := Text.newline_not_mem_quoted t.text
  have hspan : '\n' ∉ t.span.text.toList := t.span.newline_not_mem_text
  have hdisplay := toList_display t []
  rw [List.append_nil, List.append_nil] at hdisplay
  simp [hdisplay, hkind, htext, hspan]

end Token

/-! ## Dumps -/

structure Text.IsLines (lines : List String) (text : String) : Prop where
  joined : text = String.join (lines.map (· ++ "\n"))
  one_line : ∀ line ∈ lines, '\n' ∉ line.toList

theorem isLines_dumpTokens (tokens : List Token) :
    Text.IsLines (tokens.map Token.display) (dumpTokens tokens) where
  joined := by
    rw [dumpTokens, List.map_map]
    rfl
  one_line := by
    intro line hline
    obtain ⟨t, -, rfl⟩ := List.mem_map.1 hline
    exact t.newline_not_mem_display

theorem toList_dumpTokens_cons (t : Token) (tokens : List Token) :
    (dumpTokens (t :: tokens)).toList = t.display.toList ++ '\n' :: (dumpTokens tokens).toList := by
  simp [dumpTokens, String.join_cons]

/-- **No two lists of tokens have the same dump.** -/
theorem dumpTokens_injective : Function.Injective dumpTokens := by
  intro tokens tokens' h
  replace h := congrArg String.toList h
  induction tokens generalizing tokens' with
  | nil =>
      cases tokens' with
      | nil => rfl
      | cons t' tokens' =>
          rw [toList_dumpTokens_cons] at h
          exact absurd (congrArg List.length h) (by simp [dumpTokens])
  | cons t tokens ih =>
      rw [toList_dumpTokens_cons] at h
      cases tokens' with
      | nil => exact absurd (congrArg List.length h) (by simp [dumpTokens])
      | cons t' tokens' =>
          rw [toList_dumpTokens_cons] at h
          obtain ⟨rfl, hrest⟩ := Token.display_append_inj h
          rw [ih hrest]

namespace Cli

/-- **A dump loses nothing.** The dump of a source that can be scanned has one line for each token,
whatever the token's text is; the end of every span is a 32-bit word; and two sources with the same
dump have the same tokens, with their kinds, texts and spans. -/
theorem dump_faithful {source : String} {tokens : List Token}
    (hsize : source.utf8ByteSize < 2 ^ (32 : Nat)) (h : tokenize source = .ok tokens)
    (options : ParserOptions) : ∃ dump, render options .tokens source = .ok dump ∧
      Text.IsLines (tokens.map Token.display) dump ∧
      (∀ t ∈ tokens, ∃ stop, t.span.stop? = some stop) ∧
      ∀ {source' tokens'}, source'.utf8ByteSize < 2 ^ (32 : Nat) → tokenize source' = .ok tokens' →
        render options .tokens source' = .ok dump → tokens' = tokens := by
  have hdump : ∀ {source tokens}, tokenize source = .ok tokens →
      render options .tokens source = .ok (dumpTokens tokens) := by
    intro source tokens h
    rw [render, h]
  refine ⟨dumpTokens tokens, hdump h, isLines_dumpTokens tokens, ?_, ?_⟩
  · intro t ht
    obtain ⟨offset, hstream⟩ := tokenize_eq_ok.1 h
    have hmem : t ∈ (TokenStream.ofSource source).tokens := by rwa [hstream]
    obtain ⟨after, hmarks⟩ := TokenStream.marks_of_mem hsize hmem
    have hstop : t.span.stop < UInt32.size := Nat.lt_of_le_of_lt hmarks.stop_le hsize
    exact ⟨_, if_pos hstop⟩
  · intro source' tokens' _ h' hsame
    rw [hdump h'] at hsame
    exact dumpTokens_injective (Except.ok.inj hsame)

/-- A string that spans two lines, the second of which looks like a line of a dump. -/
theorem dump_faithful_two_lines : ∃ dump, render {} .tokens "'\n; \";\" @0..1';" = .ok dump ∧
    Text.IsLines ["STRING \"'\\n; \\\";\\\" @0..1'\" @0..14", "; \";\" @14..15"] dump := by
  have hstream : TokenStream.ofSource "'\n; \";\" @0..1';" =
      ⟨[⟨.string, "'\n; \";\" @0..1'", ⟨0, 14⟩⟩, ⟨.delimiter .semicolon, ";", ⟨14, 1⟩⟩],
        .complete 15⟩ := by
    decide +kernel
  obtain ⟨dump, hrender, hlines, -, -⟩ :=
    dump_faithful (by decide) (tokenize_eq_ok.2 ⟨15, hstream⟩) {}
  have hshown : [Token.display ⟨.string, "'\n; \";\" @0..1'", ⟨0, 14⟩⟩,
      Token.display ⟨.delimiter .semicolon, ";", ⟨14, 1⟩⟩] =
      ["STRING \"'\\n; \\\";\\\" @0..1'\" @0..14", "; \";\" @14..15"] := by
    decide +kernel
  exact ⟨dump, hrender, hshown ▸ hlines⟩

end Cli

end LetterLang

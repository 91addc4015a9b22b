import LetterLang.Proofs.LexemeText

/-!
# Lexemes can be spaced freely

What a lexeme is does not depend on its neighbours, as long as a blank stands between them. A rule
may look far ahead for a closing quote or the end of a comment, and it may look at the character
behind a word or an operator; but what it finds there is the same whatever the blanks are.

- `Lexeme.StandsAlone`: the text of the lexeme, taken for a whole source, is this one lexeme.
- `Lexeme.standsAlone_iff`: these are the lexemes that are spelled.
- `Lexeme.scans_joined`: lexemes with blanks between them scan as these lexemes.
- `tokenize_respaced`: the tokens of a source can be spaced anew, and they stay what they are.
-/

namespace LetterLang

def Text.Blanks (text : String) : Prop :=
  ∀ c ∈ text.toList, isBlank c = true

instance (text : String) : Decidable (Text.Blanks text) :=
  List.decidableBAll (fun c => Text.isBlank c = true) text.toList

namespace Text

theorem separates_blank {c : Char} (hc : isBlank c = true) (rest : List Char) :
    Separates (c :: rest) := by
  rintro d ⟨⟩
  refine ⟨?_, ?_, ?_, ?_⟩
  · apply Bool.eq_false_iff.2
    intro hword
    rw [isBlank_of_isWord hword] at hc
    cases hc
  · rintro rfl
    exact absurd hc (by decide)
  · rintro rfl
    exact absurd hc (by decide)
  · rintro rfl
    exact absurd hc (by decide)

theorem Blanks.separates {text : String} (h : Blanks text) {rest : List Char}
    (hne : text ≠ "" ∨ rest = []) : Separates (text.toList ++ rest) := by
  cases htext : text.toList with
  | nil =>
      rcases hne with hne | rfl
      · exact absurd (String.toList_eq_nil_iff.1 htext) hne
      · rintro c ⟨⟩
  | cons c cs =>
      apply separates_blank
      apply h
      rw [htext]
      exact List.mem_cons_self

end Text

namespace Lexeme

/-- The text of the lexeme by itself is scanned as one token, which is this lexeme. -/
def StandsAlone (t : Lexeme) : Prop :=
  ∃ token, tokenize t.2 = .ok [token] ∧ token.lexeme = t

def joined : List Lexeme → List String → String
  | [], _ => ""
  | t :: ts, separators =>
    t.2 ++ String.join (List.zipWith (fun separator u => separator ++ u.2) separators ts)

variable {t : Lexeme} {ts : List Lexeme} {separators : List String}

/-- **The lexemes that stand alone are those that are spelled.** -/
theorem standsAlone_iff : t.StandsAlone ↔ t.Spelled := by
  constructor
  · rintro ⟨token, htokens, rfl⟩
    have hscans : Scans token.lexeme.2.toList [token.lexeme] :=
      exists_tokenize_iff.1 ⟨[token], htokens, rfl⟩
    exact hscans.spelled _ (List.mem_singleton_self _)
  · intro hspelled
    have hscans : Scans (t.2.toList ++ []) [t] := .lexeme hspelled nofun .nil
    rw [List.append_nil] at hscans
    obtain ⟨tokens, htokens, hlexemes⟩ := exists_tokenize_iff.2 hscans
    obtain ⟨token, rfl, hlexeme⟩ := List.map_eq_singleton_iff.1 hlexemes
    exact ⟨token, htokens, hlexeme⟩

theorem scans_joined {trail : String} (hspelled : ∀ u ∈ t :: ts, u.Spelled)
    (hlength : separators.length = ts.length)
    (hseparators : ∀ separator ∈ separators, separator ≠ "" ∧ Text.Blanks separator)
    (htrail : Text.Blanks trail) :
    Scans ((joined (t :: ts) separators).toList ++ trail.toList) (t :: ts) := by
  induction ts generalizing t separators with
  | nil =>
      have hend : Scans (trail.toList ++ []) [] := .blanks htrail .nil
      have hstop : t.Stops (trail.toList ++ []) := (htrail.separates (.inr rfl)).stops t
      have hscans := hend.lexeme (hspelled t List.mem_cons_self) hstop
      rw [List.append_nil] at hscans
      simpa [joined] using hscans
  | cons u ts ih =>
      obtain ⟨separator, separators, rfl⟩ := List.exists_cons_of_length_eq_add_one hlength
      obtain ⟨⟨hne, hblank⟩, hseparators⟩ := List.forall_mem_cons.1 hseparators
      obtain ⟨ht, hspelled⟩ := List.forall_mem_cons.1 hspelled
      have hrest := ih hspelled (Nat.succ.inj hlength) hseparators
      have hgap := hrest.blanks hblank
      have hscans := hgap.lexeme ht ((hblank.separates (.inl hne)).stops t)
      simpa [joined] using hscans

end Lexeme

/-- **Tokens can be spaced freely.** Lexemes that stand alone, with any blanks between them and
around them, are scanned as these lexemes; and every token of a source stands alone. -/
theorem tokenize_respaced :
    (∀ (ls : List Lexeme) (separators : List String) (lead trail : String),
      (∀ t ∈ ls, t.StandsAlone) → separators.length = ls.length - 1 →
      (∀ separator ∈ separators, separator ≠ "" ∧ Text.Blanks separator) →
      Text.Blanks lead → Text.Blanks trail →
      ∃ ts, tokenize (lead ++ Lexeme.joined ls separators ++ trail) = .ok ts ∧
        ts.map Token.lexeme = ls) ∧
    ∀ source ts, tokenize source = .ok ts → ∀ t ∈ ts, t.lexeme.StandsAlone := by
  constructor
  · intro ls separators lead trail halone hlength hseparators hlead htrail
    apply exists_tokenize_iff.2
    rw [String.toList_append, String.toList_append, List.append_assoc]
    apply Scans.blanks hlead
    cases ls with
    | nil =>
        have hend : Scans (trail.toList ++ []) [] := .blanks htrail .nil
        simpa [Lexeme.joined] using hend
    | cons t ts =>
        have hspelled : ∀ u ∈ t :: ts, u.Spelled := fun u hu =>
          Lexeme.standsAlone_iff.1 (halone u hu)
        exact Lexeme.scans_joined hspelled hlength hseparators htrail
  · intro source ts htokens t ht
    obtain ⟨offset, hstream⟩ := tokenize_eq_ok.1 htokens
    apply Lexeme.standsAlone_iff.2
    apply TokenStream.ofSource_spelled source
    rw [hstream]
    exact ht

/-- A slash and an asterisk with a blank between them do not open a comment. -/
theorem tokenize_respaced_slash :
    ∃ ts, tokenize "\n/\u00a0*" = .ok ts ∧
      ts.map Token.lexeme = [(.multiplicative, "/"), (.multiplicative, "*")] := by
  have halone : ∀ t ∈ [(TokenKind.multiplicative, "/"), (.multiplicative, "*")],
      Lexeme.StandsAlone t := by
    intro t ht
    apply Lexeme.standsAlone_iff.2
    simp only [List.mem_cons, List.not_mem_nil, or_false] at ht
    rcases ht with rfl | rfl
    · exact .inr rfl
    · exact .inl rfl
  have htext : "\n/\u00a0*" =
      "\n" ++ Lexeme.joined [(.multiplicative, "/"), (.multiplicative, "*")] ["\u00a0"] ++ "" := by
    decide
  rw [htext]
  exact tokenize_respaced.1 _ _ _ _ halone rfl (by decide) (by decide) (by decide)

end LetterLang

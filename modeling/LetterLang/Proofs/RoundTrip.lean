import LetterLang.Proofs.Acceptance
import LetterLang.Proofs.PrintedText
import LetterLang.Proofs.Reprinting

/-!
# Round trips

What the grammar says of printed trees is carried over to the scanner, the parser and the printer.

- `exists_parse_iff`: the programs that a limit on nesting lets through are the well-formed trees
  that need no more levels. Both directions go through the printed text, so `Program.levels` is
  exactly the nesting that a tree calls for.
- Printing and parsing gives the same tree back, under the same limit.
- A source and the print of its program differ in parentheses and in how literals are spelled, and
  no source of the program is shorter.
-/

namespace LetterLang

variable {limit : UInt32} {source : String} {options : PrintOptions} {p : Program}

theorem PrintOptions.Blank.ofDefault : ({} : PrintOptions).Blank where
  indent := List.all_eq_true.1 (by decide +kernel)
  newline := List.all_eq_true.1 (by decide +kernel)

/-! ## Between texts and trees -/

/-- The text of a well-formed tree is parsed to the tree, under every limit that allows for its
levels. -/
theorem parse_print_of_wellFormed (ho : options.Blank) (h : p.wellFormed = true)
    (hn : p.levels ≤ limit.toNat) : parse limit (p.print options) = .ok p :=
  parse_eq_ok_iff_scans.2 ⟨_, p.print_scans ho h, p.derives options h hn⟩

/-- The lexemes of a source are reprinted in the lexemes of its program. -/
theorem exists_scans_of_parse (h : parse limit source = .ok p) (options : PrintOptions) :
    ∃ ls, Scans source.toList ls ∧ p.wellFormed = true ∧ p.levels ≤ limit.toNat ∧
      Reprinted ls (Piece.lexemes (p.pieces options)) := by
  obtain ⟨ls, hscans, hp⟩ := parse_eq_ok_iff_scans.1 h
  exact ⟨ls, hscans, hp.reprinted hscans.spelled options⟩

/-- A tree is parsed from some source under a limit exactly if it is well-formed and the limit
allows for its levels. -/
theorem exists_parse_iff :
    (∃ source, parse limit source = .ok p) ↔ p.wellFormed = true ∧ p.levels ≤ limit.toNat := by
  constructor
  · rintro ⟨source, h⟩
    obtain ⟨-, -, hwf, hn, -⟩ := exists_scans_of_parse h {}
    exact ⟨hwf, hn⟩
  · rintro ⟨hwf, hn⟩
    exact ⟨p.print {}, parse_print_of_wellFormed .ofDefault hwf hn⟩

theorem exists_parse_of_print {text : String}
    (h : (parse limit source).toOption.map (·.print {}) = some text) :
    ∃ p, parse limit source = .ok p ∧ p.print {} = text := by
  cases hp : parse limit source with
  | error e =>
      rw [hp] at h
      cases h
  | ok p =>
      rw [hp] at h
      exact ⟨p, rfl, Option.some.inj h⟩

/-! ## The round trip -/

/-- **Printing and parsing gives the same program back** under the limit that its source was
parsed under, whatever blanks are written at the ends of lines. -/
theorem parse_print_of_parse (limit : UInt32) (source : String) (options : PrintOptions)
    (p : Program) (ho : options.Blank) (h : parse limit source = .ok p) :
    parse limit (p.print options) = .ok p := by
  obtain ⟨hwf, hn⟩ := exists_parse_iff.1 ⟨source, h⟩
  exact parse_print_of_wellFormed ho hwf hn

theorem parse_print_parenthesized :
    ∃ p, parse 8 "((a+(007)))*'x';" = .ok p ∧ parse 8 "(a + 7) * \"x\";\n" = .ok p := by
  obtain ⟨p, h, hprint⟩ := exists_parse_of_print
    (by decide +kernel : (parse 8 "((a+(007)))*'x';").toOption.map (·.print {}) =
      some "(a + 7) * \"x\";\n")
  refine ⟨p, h, ?_⟩
  rw [← hprint]
  exact parse_print_of_parse 8 _ {} p .ofDefault h

/-! ## The programs that have a source -/

/-- **The parser's results are the well-formed programs**, as far as levels can be counted, and
each of them is parsed from its own text under all limits from some limit on. -/
theorem exists_parse_iff_wellFormed (p : Program) (hn : p.levels < 2 ^ 32) :
    ((∃ source limit, parse limit source = .ok p) ↔ p.wellFormed = true) ∧
      (p.wellFormed = true →
        ∃ limit : UInt32, ∀ limit', limit ≤ limit' → parse limit' (p.print {}) = .ok p) := by
  have hlevels : (UInt32.ofNat p.levels).toNat = p.levels := UInt32.toNat_ofNat_of_lt' hn
  have hprint : p.wellFormed = true →
      ∀ limit', UInt32.ofNat p.levels ≤ limit' → parse limit' (p.print {}) = .ok p := by
    intro hwf limit' hle
    have hle : (UInt32.ofNat p.levels).toNat ≤ limit'.toNat := UInt32.le_iff_toNat_le.1 hle
    rw [hlevels] at hle
    exact parse_print_of_wellFormed .ofDefault hwf hle
  refine ⟨⟨?_, ?_⟩, fun hwf => ⟨_, hprint hwf⟩⟩
  · rintro ⟨source, limit, h⟩
    exact (exists_parse_iff.1 ⟨source, h⟩).1
  · intro hwf
    exact ⟨_, _, hprint hwf _ (UInt32.le_refl _)⟩

/-- An `else` may follow a loop, but not a loop that ends in an open `if`. -/
theorem exists_parse_else :
    (∃ source limit, parse limit source =
      .ok ⟨[.ifElse (.identifier "a") (.whileLoop .this .empty) .empty]⟩) ∧
    ¬ ∃ source limit, parse limit source =
      .ok ⟨[.ifElse (.identifier "a") (.whileLoop .this (.ifThen .null .empty)) .empty]⟩ := by
  constructor
  · exact (exists_parse_iff_wellFormed _ (by decide)).1.2 (by decide +kernel)
  · intro h
    have hwf := (exists_parse_iff_wellFormed _ (by decide)).1.1 h
    revert hwf
    decide +kernel

/-! ## What reprinting changes -/

/-- **Reprinting drops parentheses and respells literals, and nothing else**, and no source of the
program has fewer tokens than its print. -/
theorem tokenize_print_reprinted (limit : UInt32) (source : String) (options : PrintOptions)
    (p : Program) (ho : options.Blank) (h : parse limit source = .ok p) :
    ∃ ts ts', tokenize source = .ok ts ∧ tokenize (p.print options) = .ok ts' ∧
      Reprinted (ts.map Token.lexeme) (ts'.map Token.lexeme) ∧
      ∀ limit' source', parse limit' source' = .ok p →
        ∃ us, tokenize source' = .ok us ∧ ts'.length ≤ us.length := by
  obtain ⟨ls, hscans, hwf, -, hr⟩ := exists_scans_of_parse h options
  obtain ⟨ts, hts, rfl⟩ := exists_tokenize_iff.2 hscans
  obtain ⟨ts', hts', hprint⟩ := exists_tokenize_iff.2 (p.print_scans ho hwf)
  rw [← hprint] at hr
  refine ⟨ts, ts', hts, hts', hr, ?_⟩
  intro limit' source' h'
  obtain ⟨ls', hscans', -, -, hr'⟩ := exists_scans_of_parse h' options
  obtain ⟨us, hus, rfl⟩ := exists_tokenize_iff.2 hscans'
  have hlength := hr'.length_le
  rw [← hprint, List.length_map, List.length_map] at hlength
  exact ⟨us, hus, hlength⟩

theorem tokenize_print_parenthesized :
    ∃ ts ts', tokenize "((a+(007)))*'x';" = .ok ts ∧
      tokenize "(a + 7) * \"x\";\n" = .ok ts' ∧
      Reprinted (ts.map Token.lexeme) (ts'.map Token.lexeme) := by
  obtain ⟨p, h, hprint⟩ := exists_parse_of_print
    (by decide +kernel : (parse 8 "((a+(007)))*'x';").toOption.map (·.print {}) =
      some "(a + 7) * \"x\";\n")
  obtain ⟨ts, ts', hts, hts', hr, -⟩ := tokenize_print_reprinted 8 _ {} p .ofDefault h
  rw [hprint] at hts'
  exact ⟨ts, ts', hts, hts', hr⟩

end LetterLang

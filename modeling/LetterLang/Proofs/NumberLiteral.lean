import LetterLang.Proofs.Alike
import LetterLang.Proofs.JsonText
import LetterLang.Proofs.Rounding
import LetterLang.Tree.ToJson

/-!
# Number literals

The digits of a number literal stand for the binary64 number nearest to them. That number is whole,
and printing it and writing it as JSON keep it: the printed digits, which are mostly not those of
the source, stand for the same number again, and so does the JSON.

- `Text.IsNumeral`: digits without superfluous leading zeros.
- `Binary64.exists_print`: a whole number is printed as a whole number that is rounded to it.
- `Binary64.IsKept`: what printing and JSON keep of a whole number.
- `literal_keeps_value`: the literal that a sequence of digits stands for, and what is kept of it.
-/

namespace LetterLang

attribute [local instance] natPow

open NumberFormat (digitsText)
open Text (AllDigits)
open Parse

/-! ## Numerals -/

/-- At least one digit, and no leading zero but for the number zero. -/
structure Text.IsNumeral (cs : List Char) : Prop where
  nonempty : cs ≠ []
  digits : AllDigits cs
  no_leading_zero : cs.head? = some '0' → cs = ['0']

theorem head?_toDigits {n : Nat} (hn : n ≠ 0) : (Nat.toDigits 10 n).head? ≠ some '0' := by
  induction n using Nat.strongRecOn with
  | ind n ih =>
      rcases Nat.lt_or_ge n 10 with hlt | hge
      · rw [Nat.toDigits_of_lt_base hlt]
        intro h
        have hdigit : ∀ d < 10, Nat.digitChar d = '0' → d = 0 := by decide
        exact hn (hdigit n hlt (Option.some.inj h))
      · have hrest := ih (n / 10) (by omega) (by omega)
        obtain ⟨c, cs, hcs⟩ :=
          List.exists_cons_of_ne_nil (Nat.toDigits_ne_nil (b := 10) (n := n / 10))
        rw [hcs] at hrest
        rwa [Nat.toDigits_of_base_le (by decide) hge, hcs]

theorem Text.isNumeral_digitsText (n : Nat) : IsNumeral (digitsText n).toList := by
  rw [Json.toList_digitsText]
  refine ⟨Nat.toDigits_ne_nil, Binary64.allDigits_toDigits n, fun h => ?_⟩
  by_cases hn : n = 0
  · rw [hn]
    rfl
  · exact absurd h (head?_toDigits hn)

theorem toDigits_mul_pow {n : Nat} (hn : n ≠ 0) (e : Nat) :
    Nat.toDigits 10 (n * 10 ^ e) = Nat.toDigits 10 n ++ List.replicate e '0' := by
  induction e with
  | zero => rw [Nat.pow_zero, Nat.mul_one, List.replicate_zero, List.append_nil]
  | succ e ih =>
      have hpos : 0 < n * 10 ^ e :=
        Nat.mul_pos (Nat.pos_of_ne_zero hn) (Nat.pow_pos (by decide))
      have hten : n * 10 ^ (e + 1) = 10 * (n * 10 ^ e) + 0 := by
        rw [Nat.pow_succ, ← Nat.mul_assoc, Nat.mul_comm, Nat.add_zero]
      have hzero : Nat.toDigits 10 0 = ['0'] := rfl
      rw [hten, ← Nat.toDigits_append_toDigits (by decide) hpos (by decide), ih, hzero,
        List.append_assoc, ← List.replicate_succ']

/-! ## Printing -/

namespace Magnitude

variable {n w : Nat} {m : Magnitude}

/-- Up to 2⁵³ every whole number is a magnitude. -/
theorem units_of_le (hn : n ≤ 2 ^ (53 : Nat)) (h : nearest? (n * unitsInOne) 1 = some m) :
    m.units = n * unitsInOne := by
  rw [units_of_nearest? h]
  refine nearestUnits_of_dvd ?_
  rw [unitsInOne]
  exact dvd_of_le_two_pow hn

theorem two_pow_mul_le_nearestUnits {k : Nat} (h : 2 ^ k ≤ w) :
    2 ^ k * unitsInOne ≤ nearestUnits (w * unitsInOne) 1 := by
  have hunits := Nat.mul_le_mul_right unitsInOne h
  have hone : ∃ one, unitsInOne = 2 ^ one := ⟨1074, by rw [unitsInOne]⟩
  obtain ⟨one, hone⟩ := hone
  rw [hone, ← Nat.pow_add] at hunits ⊢
  exact two_pow_le_nearestUnits hunits

/-- What is rounded to a number up to 2⁵³ is that number, or it lies above 2⁵³ and is rounded to
that. -/
theorem eq_of_nearest? (hn : n ≤ 2 ^ (53 : Nat)) (hm : m.units = n * unitsInOne)
    (hw : nearest? (w * unitsInOne) 1 = some m) : w = n ∨ n = 2 ^ (53 : Nat) := by
  rcases Nat.le_total w (2 ^ (53 : Nat)) with hle | hge
  · have hunits := units_of_le hle hw
    rw [hm] at hunits
    exact .inl (Nat.eq_of_mul_eq_mul_right unitsInOne_pos hunits).symm
  · have hlow := two_pow_mul_le_nearestUnits hge
    rw [← units_of_nearest? hw, hm] at hlow
    exact .inr (Nat.le_antisymm hn (Nat.le_of_mul_le_mul_right hlow unitsInOne_pos))

end Magnitude

namespace Binary64

variable {n w : Nat} {m : Magnitude}

/-- A whole number is printed as the numeral of a whole number that is rounded to it. -/
theorem exists_print (hm : m.units = w * unitsInOne) : ∃ k,
    print (.finite false m) = digitsText k ∧ Magnitude.nearest? (k * unitsInOne) 1 = some m := by
  by_cases hw : w = 0
  · rw [hw, Nat.zero_mul] at hm
    have hzero : m = .zero := Magnitude.ext_units hm
    rw [hzero]
    refine ⟨0, rfl, ?_⟩
    rw [Nat.zero_mul]
    exact Magnitude.nearest?_units .zero
  · obtain ⟨k, hk, hwhole, he, hback⟩ := Magnitude.shortest_isWhole .up hm hw
    have hd := hwhole.digits_ne_zero hk
    refine ⟨k, String.toList_inj.1 ?_, hback⟩
    rw [toList_print hd he, Json.toList_digitsText, ← hwhole.eq_mul he, toDigits_mul_pow hd]

theorem print_two_pow (hm : m.units = 2 ^ (53 : Nat) * unitsInOne) :
    print (.finite false m) = digitsText (2 ^ (53 : Nat)) := by
  have hmag : m = ⟨2 ^ (53 : Nat) * unitsInOne, by decide +kernel⟩ := Magnitude.ext_units hm
  rw [hmag]
  decide +kernel

/-- **Up to 2⁵³ a whole number is printed as it is.** -/
theorem print_of_le (hn : n ≤ 2 ^ (53 : Nat)) (hm : m.units = n * unitsInOne) :
    print (.finite false m) = digitsText n := by
  obtain ⟨k, hprint, hk⟩ := exists_print hm
  rcases Magnitude.eq_of_nearest? hn hm hk with rfl | rfl
  · exact hprint
  · -- The number 2⁵³ + 1 has as many digits and is rounded to 2⁵³ as well.
    exact print_two_pow hm

/-! ## Literals -/

/-- What printing and JSON keep of a whole number. -/
structure IsKept (w : Nat) (v : Binary64) : Prop where
  numeral : Text.IsNumeral v.print.toList
  printed : ofText? v.print = some v
  natural : w < 2 ^ (64 : Nat) → Json.ofNumber v = .natural w
  not_digits : 2 ^ (64 : Nat) ≤ w → ¬ AllDigits (Json.ofNumber v).compact.toList
  decimal : 2 ^ (64 : Nat) ≤ w → ofText? (Json.ofNumber v).compact = some v

/-- **Printing and JSON keep whole numbers.** -/
theorem isKept_of_whole (hm : m.units = w * unitsInOne) : IsKept w (.finite false m) := by
  have hnat : m.toNat? = some w := by
    rw [Magnitude.toNat?, hm, Nat.mul_mod_left, if_pos rfl, Nat.mul_div_cancel _ unitsInOne_pos]
  have hlarge : 2 ^ (64 : Nat) ≤ w → Json.ofNumber (.finite false m) = .decimal false m := by
    intro hw
    rw [Json.ofNumber, hnat]
    exact if_neg fun h => Nat.not_lt.2 hw h.1
  obtain ⟨k, hprint, -⟩ := exists_print hm
  constructor
  · rw [hprint]
    exact Text.isNumeral_digitsText k
  · exact (ofText?_print (isWhole_iff.2 ⟨m, w, rfl, hm⟩)).2.2
  · intro hw
    rw [Json.ofNumber, hnat]
    exact if_pos ⟨hw, .inl rfl⟩
  · intro hw
    rw [hlarge hw, Json.compact]
    exact Json.not_digits_decimal false m
  · intro hw
    rw [hlarge hw, Json.compact]
    exact Json.ofText?_decimal false m

theorem literal?_digits {t : Token} (hkind : t.kind = .number) (hne : t.text.toList ≠ [])
    (hdigits : AllDigits t.text.toList) : Grammar.literal? t =
      (Decimal.nearest? ⟨natOfDigits t.text.toList, 0⟩).map fun m =>
        .number (.finite false m) := by
  rw [Grammar.literal?, hkind]
  dsimp only
  rw [ofText?_digits hne hdigits]
  cases Decimal.nearest? ⟨natOfDigits t.text.toList, 0⟩ <;> rfl

end Binary64

namespace Parse

variable {g : Setting} {s : ParseState} {t : Token} {rest : List Token}

theorem literal_of_value {value : Expr} (hpending : s.pending = t :: rest)
    (hvalue : Grammar.literal? t = some value) :
    ((rest = [] → g.Complete) → Grammar.literal g s =
      .ok value { s with pending := rest, consumed := t :: s.consumed }) ∧
    (∀ e, rest = [] → g.ending = .fault e →
      Grammar.literal g s = .error (.failed (.scan e)) s) := by
  have hlookahead : s.lookahead g = t := by rw [ParseState.lookahead, hpending, List.headD_cons]
  rw [← hlookahead] at hvalue
  have hliteral := literal_of_some hvalue
  rw [hlookahead] at hliteral
  refine ⟨fun hrest => hliteral.trans (bind_of_ok (eat_of_cons hpending hrest)), ?_⟩
  rintro e rfl he
  exact hliteral.trans (bind_of_error (eat_of_fault hpending he))

/-- A token is rejected as a literal exactly where it has no value. -/
theorem literal_rejects_iff (hpending : s.pending = t :: rest) :
    Grammar.literal g s = .error (.failed (.grammar (.unexpectedLiteral t.text t.span))) s ↔
      Grammar.literal? t = none := by
  have hlookahead : s.lookahead g = t := by rw [ParseState.lookahead, hpending, List.headD_cons]
  cases hvalue : Grammar.literal? t with
  | none =>
      rw [← hlookahead] at hvalue
      have hnone := literal_of_none hvalue
      rw [hlookahead] at hnone
      exact iff_of_true hnone rfl
  | some value =>
      obtain ⟨hok, hfault⟩ := literal_of_value (g := g) hpending hvalue
      refine iff_of_false (fun h => ?_) (Option.some_ne_none _)
      by_cases hrest : rest = [] → g.Complete
      · rw [hok hrest] at h
        cases h
      · obtain ⟨hnil, hcomplete⟩ := Classical.not_imp.1 hrest
        obtain ⟨e, he⟩ := (complete_or_fault g).resolve_left hcomplete
        rw [hfault e hnil he] at h
        cases h

end Parse

/-- **Number literals keep their value.** Digits of any length are rejected as a literal exactly
where the number nearest to them is not finite. Otherwise they stand for the nearest binary64
number, which is whole; unless the token after them cannot be scanned, the literal with that number
is the result; the number is kept by printing and by JSON; and up to 2⁵³ it is printed as it was. -/
theorem literal_keeps_value (g : Setting) {s : ParseState} {t : Token} {rest : List Token}
    (hpending : s.pending = t :: rest) (hkind : t.kind = .number) (hne : t.text.toList ≠ [])
    (hdigits : AllDigits t.text.toList) :
    (Grammar.literal g s = .error (.failed (.grammar (.unexpectedLiteral t.text t.span))) s ↔
      2 ^ (1024 : Nat) - 2 ^ (970 : Nat) ≤ Binary64.natOfDigits t.text.toList) ∧
    (Binary64.natOfDigits t.text.toList < 2 ^ (1024 : Nat) - 2 ^ (970 : Nat) → ∃ m w,
      ((rest = [] → g.Complete) → Grammar.literal g s = .ok (.number (.finite false m))
        { s with pending := rest, consumed := t :: s.consumed }) ∧
      (∀ e, rest = [] → g.ending = .fault e →
        Grammar.literal g s = .error (.failed (.scan e)) s) ∧
      m.IsNearest (Binary64.natOfDigits t.text.toList * unitsInOne) ∧
      m.units = w * unitsInOne ∧ Binary64.IsKept w (.finite false m) ∧
      (Binary64.natOfDigits t.text.toList ≤ 2 ^ (53 : Nat) →
        w = Binary64.natOfDigits t.text.toList ∧
          Binary64.print (.finite false m) = digitsText (Binary64.natOfDigits t.text.toList))) := by
  have hvalue := Binary64.literal?_digits hkind hne hdigits
  have hlimit := Decimal.nearest?_eq_none_iff (Binary64.natOfDigits t.text.toList)
  rw [literal_rejects_iff hpending]
  generalize Binary64.natOfDigits t.text.toList = n at hvalue hlimit ⊢
  refine ⟨by rw [hvalue, Option.map_eq_none_iff, hlimit], fun hsmall => ?_⟩
  obtain ⟨m, hm⟩ := Option.ne_none_iff_exists'.1 fun h => Nat.not_le.2 hsmall (hlimit.1 h)
  rw [hm] at hvalue
  rw [Decimal.nearest?_whole] at hm
  obtain ⟨w, hw⟩ := Magnitude.unitsInOne_dvd_of_nearest? hm
  rw [Nat.mul_comm] at hw
  obtain ⟨hok, hfault⟩ := literal_of_value hpending hvalue
  refine ⟨m, w, hok, hfault, Magnitude.isNearest_of_nearest? hm, hw,
    Binary64.isKept_of_whole hw, fun hn => ?_⟩
  have hunits := Magnitude.units_of_le hn hm
  rw [hw] at hunits
  obtain rfl := Nat.eq_of_mul_eq_mul_right unitsInOne_pos hunits
  exact ⟨rfl, Binary64.print_of_le hn hw⟩

/-- The first number that is not a binary64 number is rounded to the even one below it, and printed
as that. -/
theorem literal_keeps_rounded_value :
    let t : Token := ⟨.number, "009007199254740993", ⟨0, 18⟩⟩
    ∃ m w, Grammar.literal ⟨0, .complete 18⟩ ⟨[t], [], 0⟩ =
        .ok (.number (.finite false m)) ⟨[], [t], 0⟩ ∧
      m.IsNearest (9007199254740993 * unitsInOne) ∧ m.units = w * unitsInOne ∧
      Binary64.IsKept w (.finite false m) := by
  intro t
  have hdigits : AllDigits t.text.toList := List.all_eq_true.1 (by decide)
  have hvalue : Binary64.natOfDigits t.text.toList = 9007199254740993 := by decide
  have hsmall : 9007199254740993 < 2 ^ (1024 : Nat) - 2 ^ (970 : Nat) := by decide +kernel
  have hkeeps := (literal_keeps_value ⟨0, .complete 18⟩ (s := ⟨[t], [], 0⟩) rfl rfl (by decide)
    hdigits).2
  rw [hvalue] at hkeeps
  obtain ⟨m, w, hok, -, hnearest, hw, hkept, -⟩ := hkeeps hsmall
  exact ⟨m, w, hok fun _ => ⟨18, rfl⟩, hnearest, hw, hkept⟩

end LetterLang

import LetterLang.Tree.Layout

/-!
# Whole numbers

The numbers of a source are whole: digits stand for a whole number, and the binary64 number nearest
to a whole number is whole again, since above 2⁵³ the gaps between numbers are whole.

- `Magnitude.nearest?_units`: rounding leaves alone what is already a magnitude.
- `Decimal.IsWhole d v`: the decimal is the whole number `v`, with trailing zeros in its digits or
  not.
- `Binary64.isWhole_of_digits` and `Binary64.ofText?_print`: what digits stand for is whole, and a
  whole number is printed in digits that stand for it.
-/

namespace LetterLang

attribute [local instance] natPow

/-! ## Rounding -/

theorem unitsInOne_pos : 0 < unitsInOne := by
  rw [unitsInOne]
  apply Nat.pow_pos
  decide

namespace Magnitude

theorem roundHalfEven_of_dvd {num den : Nat} (hden : 0 < den) (h : den ∣ num) :
    roundHalfEven num den = num / den := by
  have hmod : num % den = 0 := Nat.mod_eq_zero_of_dvd h
  have hlt : compare (2 * (num % den)) den = .lt := by
    rw [hmod]
    exact Nat.compare_eq_lt.2 hden
  rw [roundHalfEven]
  simp only [hlt]

/-- What is a multiple of its gap is not changed by rounding. -/
theorem nearestUnits_of_dvd {units : Nat} (h : 2 ^ (units.log2 - 52) ∣ units) :
    nearestUnits units 1 = units := by
  have hgap : gap units 1 = units.log2 - 52 := by rw [gap, Nat.div_one]
  rw [nearestUnits, hgap, Nat.one_mul, roundHalfEven_of_dvd (Nat.two_pow_pos _) h]
  exact Nat.div_mul_cancel h

theorem nearest?_units (m : Magnitude) : nearest? m.units 1 = some m := by
  have hu := nearestUnits_of_dvd m.representable.2
  have hlt : nearestUnits m.units 1 < unitsTooMany := by
    rw [hu]
    exact m.representable.1
  rw [nearest?, dif_pos hlt]
  obtain ⟨units, hm⟩ := m
  congr

/-- A whole number of ones is rounded to a whole number of ones. -/
theorem unitsInOne_dvd_of_nearest? {v : Nat} {m : Magnitude}
    (h : nearest? (v * unitsInOne) 1 = some m) : unitsInOne ∣ m.units := by
  have hm : m.units = nearestUnits (v * unitsInOne) 1 := by
    rw [nearest?] at h
    split at h
    · cases h
      rfl
    · cases h
  rw [hm]
  by_cases hgap : 1074 ≤ (v * unitsInOne).log2 - 52
  · rw [nearestUnits, gap, Nat.div_one]
    have hone : unitsInOne ∣ 2 ^ ((v * unitsInOne).log2 - 52) := by
      generalize (v * unitsInOne).log2 - 52 = g at hgap ⊢
      rw [unitsInOne]
      apply Nat.pow_dvd_pow
      exact hgap
    exact Nat.dvd_trans hone (Nat.dvd_mul_left _ _)
  · have hone : 2 ^ ((v * unitsInOne).log2 - 52) ∣ unitsInOne := by
      generalize (v * unitsInOne).log2 - 52 = g at hgap ⊢
      rw [unitsInOne]
      apply Nat.pow_dvd_pow
      omega
    rw [nearestUnits_of_dvd (Nat.dvd_trans hone (Nat.dvd_mul_left _ _))]
    exact Nat.dvd_mul_left _ _

end Magnitude

/-! ## Decimals that are whole -/

namespace Decimal

def IsWhole (d : Decimal) (v : Nat) : Prop :=
  d.digits * 10 ^ d.exponent.toNat = v * 10 ^ (-d.exponent).toNat

variable {d : Decimal} {v : Nat}

theorem IsWhole.eq_mul (h : d.IsWhole v) (he : 0 ≤ d.exponent) :
    d.digits * 10 ^ d.exponent.toNat = v := by
  have hzero : (-d.exponent).toNat = 0 := by omega
  rw [IsWhole, hzero, Nat.pow_zero, Nat.mul_one] at h
  exact h

theorem isWhole_of_nonneg (he : 0 ≤ d.exponent) :
    d.IsWhole (d.digits * 10 ^ d.exponent.toNat) := by
  have hzero : (-d.exponent).toNat = 0 := by omega
  rw [IsWhole, hzero, Nat.pow_zero, Nat.mul_one]

theorem isWhole_mul_five_pow (k : Nat) : IsWhole ⟨v * 2 ^ k * 5 ^ k, -k⟩ v := by
  have h₁ : (-(k : Int)).toNat = 0 := by omega
  have h₂ : (- -(k : Int)).toNat = k := by omega
  simp only [IsWhole, h₁, h₂]
  rw [Nat.pow_zero, Nat.mul_one, Nat.mul_assoc, ← Nat.mul_pow]

theorem IsWhole.drop (h : d.IsWhole v) (hd : d.digits % 10 = 0) :
    IsWhole ⟨d.digits / 10, d.exponent + 1⟩ v := by
  have hdigits : d.digits = d.digits / 10 * 10 := by omega
  unfold IsWhole at *
  rcases Int.lt_or_le d.exponent 0 with he | he
  · have h₁ : d.exponent.toNat = 0 := by omega
    have h₂ : (d.exponent + 1).toNat = 0 := by omega
    have h₃ : (-d.exponent).toNat = (-(d.exponent + 1)).toNat + 1 := by omega
    rw [h₁, h₃, Nat.pow_succ, Nat.pow_zero, Nat.mul_one] at h
    simp only [h₂, Nat.pow_zero, Nat.mul_one]
    rw [h, ← Nat.mul_assoc, Nat.mul_div_cancel _ (by decide)]
  · have h₁ : (d.exponent + 1).toNat = d.exponent.toNat + 1 := by omega
    have h₂ : (-d.exponent).toNat = 0 := by omega
    have h₃ : (-(d.exponent + 1)).toNat = 0 := by omega
    rw [h₂] at h
    simp only [h₁, h₃]
    rw [← h, Nat.pow_succ, Nat.mul_comm (10 ^ _) 10, ← Nat.mul_assoc, ← hdigits]

/-- The digits of a whole number end in as many zeros as stand after the point. -/
theorem IsWhole.mod_ten (h : d.IsWhole v) (he : d.exponent < 0) : d.digits % 10 = 0 := by
  have h₁ : d.exponent.toNat = 0 := by omega
  have h₂ : (-d.exponent).toNat = (-d.exponent).toNat - 1 + 1 := by omega
  rw [IsWhole, h₁, h₂, Nat.pow_succ, Nat.pow_zero, Nat.mul_one, ← Nat.mul_assoc] at h
  rw [h, Nat.mul_mod_left]

theorem IsWhole.digits_ne_zero (h : d.IsWhole v) (hv : v ≠ 0) : d.digits ≠ 0 := by
  intro hd
  rw [IsWhole, hd, Nat.zero_mul] at h
  have hpos : 0 < v * 10 ^ (-d.exponent).toNat :=
    Nat.mul_pos (Nat.pos_of_ne_zero hv) (Nat.pow_pos (by decide))
  omega

theorem IsWhole.dropZeros {fuel : Nat} (h : d.IsWhole v) (hv : v ≠ 0)
    (hf : (-d.exponent).toNat ≤ fuel) :
    0 ≤ (dropZeros fuel d).exponent ∧ (Decimal.dropZeros fuel d).IsWhole v := by
  induction fuel generalizing d with
  | zero => exact ⟨by rw [Decimal.dropZeros]; omega, h⟩
  | succ fuel ih =>
      rw [Decimal.dropZeros]
      split
      · next hd => exact ih (h.drop hd.2) (by simp only; omega)
      · next hd =>
        have hstop : ¬ d.exponent < 0 := fun he => hd ⟨h.digits_ne_zero hv, h.mod_ten he⟩
        exact ⟨by omega, h⟩

theorem IsWhole.canonical (h : d.IsWhole v) (hv : v ≠ 0) :
    0 ≤ d.canonical.exponent ∧ d.canonical.IsWhole v := by
  refine h.dropZeros hv ?_
  rcases Int.lt_or_le d.exponent 0 with he | he
  · have h₁ : d.exponent.toNat = 0 := by omega
    have hdigits : d.digits = v * 10 ^ (-d.exponent).toNat := by
      rw [IsWhole, h₁, Nat.pow_zero, Nat.mul_one] at h
      exact h
    rw [Nat.le_log2 (h.digits_ne_zero hv), hdigits]
    calc 2 ^ (-d.exponent).toNat
        ≤ 10 ^ (-d.exponent).toNat := Nat.pow_le_pow_left (by decide) _
      _ ≤ v * 10 ^ (-d.exponent).toNat := Nat.le_mul_of_pos_left _ (Nat.pos_of_ne_zero hv)
  · omega

theorem nearest?_natCast (hv : v ≠ 0) :
    Decimal.nearest? ⟨v, 0⟩ = Magnitude.nearest? (v * unitsInOne) 1 := by
  rw [Decimal.nearest?, if_neg hv]
  split
  · next e he =>
    cases he
    rw [if_neg (by decide), Nat.pow_zero, Nat.mul_one]
  · next he => cases he

theorem IsWhole.nearest? {m : Magnitude} (h : d.IsWhole v) (hv : v ≠ 0) (he : 0 ≤ d.exponent)
    (hm : d.nearest? = some m) : Magnitude.nearest? (v * unitsInOne) 1 = some m := by
  have hmul := h.eq_mul he
  rw [Decimal.nearest?, if_neg (h.digits_ne_zero hv)] at hm
  split at hm
  · next e hexp =>
    rw [hexp] at hmul
    split at hm
    · cases hm
    · rw [← hmul]
      exact hm
  · next e hexp => omega

end Decimal

/-! ## Shortest decimals of whole numbers -/

namespace Magnitude

variable {m : Magnitude} {tie : Tie} {w : Nat}

theorem onGrid?_readsBack {exponent : Int} {d : Decimal} (h : m.onGrid? tie exponent = some d) :
    d.nearest? = some m ∧ d.exponent = exponent := by
  rw [onGrid?] at h
  dsimp only at h
  generalize m.inSteps exponent = q at h
  split at h
  · next hb _ =>
    cases h
    exact ⟨of_decide_eq_true hb, rfl⟩
  · next _ ha =>
    cases h
    exact ⟨of_decide_eq_true ha, rfl⟩
  · cases h
  · next hb ha =>
    split at h
    · cases h
      exact ⟨of_decide_eq_true hb, rfl⟩
    · cases h
      exact ⟨of_decide_eq_true ha, rfl⟩
    · split at h
      · cases h
        exact ⟨of_decide_eq_true ha, rfl⟩
      · split at h <;> cases h
        · exact ⟨of_decide_eq_true hb, rfl⟩
        · exact ⟨of_decide_eq_true ha, rfl⟩

/-- On the grid of step 1 a whole number is found. -/
theorem onGrid?_zero (hm : m.units = w * unitsInOne) (hw : w ≠ 0) :
    m.onGrid? tie 0 ≠ none := by
  have hsteps : m.inSteps 0 = (m.units, unitsInOne) := by
    show m.inSteps (.ofNat 0) = _
    rw [inSteps, Nat.pow_zero, Nat.mul_one]
  have hwhole : m.units / unitsInOne = w := by rw [hm, Nat.mul_div_cancel _ unitsInOne_pos]
  have hb : m.readsBack ⟨w, 0⟩ = true := by
    rw [readsBack, Decimal.nearest?_natCast hw, ← hm, nearest?_units]
    exact decide_eq_true rfl
  intro h
  rw [onGrid?, hsteps] at h
  dsimp only at h
  rw [hwhole, hb] at h
  split at h
  · cases h
  · next hb' _ => cases hb'
  · next hb' _ => cases hb'
  · split at h
    · cases h
    · cases h
    · split at h <;> cases h

/-- The leading digit of a whole number stands before the point. -/
theorem leadingExponent_nonneg (hm : m.units = w * unitsInOne) (hw : w ≠ 0) :
    0 ≤ m.leadingExponent := by
  have hwhole : m.units / unitsInOne = w := by rw [hm, Nat.mul_div_cancel _ unitsInOne_pos]
  have hcount : digitCount 310 w = digitCount 309 (w / 10) + 1 := by
    show (if w = 0 then 0 else digitCount 309 (w / 10) + 1) = _
    rw [if_neg hw]
  rw [leadingExponent]
  simp only [hwhole]
  rw [if_neg hw, hcount]
  omega

/-- The decimal that is found stands on a grid of step 1 or more: the grid of step 1 comes before
those with smaller steps. -/
theorem exponent_nonneg_of_findSome? (hm : m.units = w * unitsInOne) (hw : w ≠ 0) {d : Decimal}
    {top : Int} (htop : 0 ≤ top) {count : Nat}
    (h : (List.range count).findSome? (fun (n : Nat) => m.onGrid? tie (top - n)) = some d) :
    d.nearest? = some m ∧ 0 ≤ d.exponent := by
  obtain ⟨before, n, after, hrange, hn, hnone⟩ := List.findSome?_eq_some_iff.1 h
  obtain ⟨hback, hexp⟩ := onGrid?_readsBack hn
  refine ⟨hback, ?_⟩
  rw [hexp]
  rcases Int.lt_or_le (top - n) 0 with hlt | hle
  · exfalso
    have hbefore : before = List.range n := by
      rw [List.range_eq_range'] at hrange ⊢
      obtain ⟨k, -, hk, hrest⟩ := List.range'_eq_append_iff.1 hrange
      have hkn := (List.range'_eq_cons_iff.1 hrest.symm).1
      rw [hk, ← hkn, Nat.zero_add, Nat.mul_one]
    have hmem : top.toNat ∈ before := by
      rw [hbefore, List.mem_range]
      omega
    have hzero : top - (top.toNat : Int) = 0 := by omega
    have hgrid := hnone _ hmem
    rw [hzero] at hgrid
    exact onGrid?_zero hm hw hgrid
  · exact hle

theorem exact_isWhole (hm : m.units = w * unitsInOne) (hw : w ≠ 0) :
    0 ≤ m.exact.exponent ∧ m.exact.IsWhole w := by
  rw [exact, hm, unitsInOne]
  exact (Decimal.isWhole_mul_five_pow 1074).canonical hw

/-- **The shortest decimal of a whole number is whole**, and reads back to it. -/
theorem shortest_isWhole (tie : Tie) (hm : m.units = w * unitsInOne) (hw : w ≠ 0) :
    ∃ v, v ≠ 0 ∧ (m.shortest tie).IsWhole v ∧ 0 ≤ (m.shortest tie).exponent ∧
      nearest? (v * unitsInOne) 1 = some m := by
  have hunits : m.units ≠ 0 := by
    rw [hm]
    exact Nat.ne_of_gt (Nat.mul_pos (Nat.pos_of_ne_zero hw) unitsInOne_pos)
  rw [shortest, if_neg hunits]
  dsimp only
  cases hfound : (List.range 17).findSome? (fun (n : Nat) =>
      m.onGrid? tie (m.leadingExponent - n)) with
  | none =>
      rw [Option.getD_none]
      obtain ⟨-, hexact⟩ := exact_isWhole hm hw
      obtain ⟨he, hwhole⟩ := hexact.canonical hw
      exact ⟨w, hw, hwhole, he, by rw [← hm, nearest?_units]⟩
  | some d =>
      rw [Option.getD_some]
      obtain ⟨hback, he⟩ :=
        exponent_nonneg_of_findSome? hm hw (leadingExponent_nonneg hm hw) hfound
      have hd : d.IsWhole (d.digits * 10 ^ d.exponent.toNat) := Decimal.isWhole_of_nonneg he
      have hdigits : d.digits ≠ 0 := by
        intro hzero
        rw [Decimal.nearest?, if_pos hzero] at hback
        cases hback
        exact hunits rfl
      have hv : d.digits * 10 ^ d.exponent.toNat ≠ 0 :=
        Nat.ne_of_gt (Nat.mul_pos (Nat.pos_of_ne_zero hdigits) (Nat.pow_pos (by decide)))
      obtain ⟨hce, hcw⟩ := hd.canonical hv
      exact ⟨_, hv, hcw, hce, hd.nearest? hv he hback⟩

end Magnitude

/-! ## Digits -/

namespace Binary64

/-- Whole numbers that are not negative; the negative zero is not among them. -/
def isWhole : Binary64 → Bool
  | .finite false m => m.toNat?.isSome
  | _ => false

theorem natOfDigits_eq (cs : List Char) : natOfDigits cs = Nat.ofDigitChars 10 cs 0 := rfl

theorem toLower_of_isDigit {c : Char} (h : Text.isDigit c = true) : c.toLower = c := by
  simp only [Text.isDigit, Bool.and_eq_true, decide_eq_true_eq] at h
  have hle : c.val ≤ 57 := h.2
  have hupper : ¬ (c.val ≥ 'A'.val ∧ c.val ≤ 'Z'.val) := by
    rintro ⟨hA, -⟩
    exact absurd (UInt32.le_trans hA hle) (by decide)
  exact dif_neg hupper

theorem ofList_ne_of_digits {cs : List Char} (hdigits : ∀ c ∈ cs, Text.isDigit c = true)
    {word : String} {c : Char} (hc : c ∈ word.toList) (hd : Text.isDigit c = false) :
    String.ofList cs ≠ word := by
  rintro rfl
  rw [String.toList_ofList] at hc
  rw [hdigits c hc] at hd
  cases hd

/-- Digits are read as a decimal without a point. -/
theorem ofText?_digits {text : String} (hne : text.toList ≠ [])
    (hdigits : ∀ c ∈ text.toList, Text.isDigit c = true) :
    ofText? text = some (match Decimal.nearest? ⟨natOfDigits text.toList, 0⟩ with
      | some m => .finite false m
      | none => .infinite false) := by
  rw [ofText?]
  generalize text.toList = cs at hne hdigits
  have hlower : cs.map Char.toLower = cs := by
    rw [List.map_congr_left fun c hc => toLower_of_isDigit (hdigits c hc), List.map_id']
  have hdecimal : decimal? cs = some ⟨natOfDigits cs, 0⟩ := by
    have htake : (cs ++ []).takeWhile Text.isDigit = cs ++ [].takeWhile Text.isDigit :=
      List.takeWhile_append_of_pos hdigits
    have hdrop : (cs ++ []).dropWhile Text.isDigit = [].dropWhile Text.isDigit :=
      List.dropWhile_append_of_pos hdigits
    rw [List.append_nil] at htake hdrop
    simp only [decimal?, htake, hdrop]
    simp [hne]
  have hunsigned : unsigned? false cs = some (match Decimal.nearest? ⟨natOfDigits cs, 0⟩ with
      | some m => .finite false m
      | none => .infinite false) := by
    rw [unsigned?, hlower, hdecimal]
    split
    · next h => exact absurd h (ofList_ne_of_digits hdigits (c := 'n') (by simp) (by decide))
    · next h => exact absurd h (ofList_ne_of_digits hdigits (c := 'i') (by simp) (by decide))
    · next h => exact absurd h (ofList_ne_of_digits hdigits (c := 'i') (by simp) (by decide))
    · rfl
  split
  · exact absurd (hdigits '-' List.mem_cons_self) (by decide)
  · exact absurd (hdigits '+' List.mem_cons_self) (by decide)
  · exact hunsigned

theorem isWhole_iff {v : Binary64} :
    v.isWhole = true ↔ ∃ m w, v = .finite false m ∧ m.units = w * unitsInOne := by
  constructor
  · intro h
    unfold isWhole at h
    split at h
    · next m =>
      rw [Magnitude.toNat?] at h
      split at h
      · next hmod =>
        exact ⟨m, _, rfl, (Nat.div_mul_cancel (Nat.dvd_of_mod_eq_zero hmod)).symm⟩
      · cases h
    · cases h
  · rintro ⟨m, w, rfl, hm⟩
    rw [isWhole, Magnitude.toNat?, if_pos (by rw [hm, Nat.mul_mod_left])]
    rfl

/-- **Digits stand for whole numbers**, where they stand for a finite number at all. -/
theorem isWhole_of_digits {text : String} {v : Binary64} (hne : text.toList ≠ [])
    (hdigits : ∀ c ∈ text.toList, Text.isDigit c = true) (h : ofText? text = some v)
    (hf : v.isFinite = true) : v.isWhole = true := by
  rw [ofText?_digits hne hdigits] at h
  cases hnearest : Decimal.nearest? ⟨natOfDigits text.toList, 0⟩ with
  | none =>
      rw [hnearest] at h
      cases h
      cases hf
  | some m =>
      rw [hnearest] at h
      cases h
      by_cases hzero : natOfDigits text.toList = 0
      · rw [Decimal.nearest?, if_pos hzero] at hnearest
        cases hnearest
        exact isWhole_iff.2 ⟨_, 0, rfl, (Nat.zero_mul _).symm⟩
      · rw [Decimal.nearest?_natCast hzero] at hnearest
        obtain ⟨w, hw⟩ := Magnitude.unitsInOne_dvd_of_nearest? hnearest
        exact isWhole_iff.2 ⟨_, w, rfl, hw.trans (Nat.mul_comm _ _)⟩

theorem writePositional_whole (format : NumberFormat) {digits : String} (hpos : 0 < digits.length)
    (e : Nat) :
    format.writePositional digits (.ofNat (e + digits.length)) =
      digits ++ NumberFormat.zeros e ++ format.wholeSuffix := by
  unfold NumberFormat.writePositional
  split
  · next h => cases h
  · next h =>
    have := Int.ofNat.inj h
    omega
  · next n _ h =>
    cases h
    rw [if_pos (Nat.le_add_left _ _), Nat.add_sub_cancel]

theorem toList_print {m : Magnitude} (hd : (m.shortest .up).digits ≠ 0)
    (he : 0 ≤ (m.shortest .up).exponent) :
    (print (.finite false m)).toList = Nat.toDigits 10 (m.shortest .up).digits ++
      List.replicate (m.shortest .up).exponent.toNat '0' := by
  generalize hs : m.shortest .up = d at hd he
  obtain ⟨e, hexp⟩ := Int.eq_ofNat_of_zero_le he
  have hpos : 0 < (NumberFormat.digitsText d.digits).length := by
    rw [NumberFormat.digitsText, String.length_ofList]
    exact Nat.length_toDigits_pos
  have hpoint : d.exponent + ((NumberFormat.digitsText d.digits).length : Int) - 1 + 1 =
      .ofNat (e + (NumberFormat.digitsText d.digits).length) := by
    rw [hexp]
    simp only [Int.ofNat_eq_natCast]
    omega
  show ("" ++ Expr.numberFormat.write m).toList = _
  simp only [NumberFormat.write, Expr.numberFormat, hs, if_neg hd, if_true, hpoint]
  rw [writePositional_whole _ hpos, hexp]
  simp [NumberFormat.digitsText, NumberFormat.zeros]

theorem isDigit_of_mem_toDigits {c : Char} {n : Nat} (h : c ∈ Nat.toDigits 10 n) :
    Text.isDigit c = true := by
  have hd := Nat.isDigit_of_mem_toDigits (by decide) (by decide) h
  rw [Char.isDigit] at hd
  exact hd

/-- **The digits of a whole number stand for it.** -/
theorem ofText?_print {v : Binary64} (h : v.isWhole = true) :
    v.print.toList ≠ [] ∧ (∀ c ∈ v.print.toList, Text.isDigit c = true) ∧
      ofText? v.print = some v := by
  obtain ⟨m, w, rfl, hm⟩ := isWhole_iff.1 h
  by_cases hw : w = 0
  · have hzero : m = .zero := by
      rw [hw, Nat.zero_mul] at hm
      obtain ⟨units, hu⟩ := m
      cases hm
      rfl
    have hprint : print (.finite false .zero) = "0" := rfl
    have hne : "0".toList ≠ [] := by decide
    have hdigits : ∀ c ∈ "0".toList, Text.isDigit c = true := by
      intro c hc
      rw [List.mem_singleton.1 (hc : c ∈ ['0'])]
      rfl
    rw [hzero, hprint]
    refine ⟨hne, hdigits, ?_⟩
    rw [ofText?_digits hne hdigits]
    rfl
  · obtain ⟨n, hn, hwhole, he, hback⟩ := Magnitude.shortest_isWhole .up hm hw
    have htext := toList_print (hwhole.digits_ne_zero hn) he
    have hne : (print (.finite false m)).toList ≠ [] := by
      rw [htext]
      simp [Nat.toDigits_ne_nil]
    have hdigits : ∀ c ∈ (print (.finite false m)).toList, Text.isDigit c = true := by
      rw [htext]
      intro c hc
      rcases List.mem_append.1 hc with hc | hc
      · exact isDigit_of_mem_toDigits hc
      · rw [(List.mem_replicate.1 hc).2]
        rfl
    have hnat : natOfDigits (print (.finite false m)).toList = n := by
      rw [htext, natOfDigits_eq, Nat.ofDigitChars_append, Nat.ofDigitChars_ten_toDigits,
        Nat.ofDigitChars_replicate_zero, Nat.mul_comm]
      exact hwhole.eq_mul he
    refine ⟨hne, hdigits, ?_⟩
    rw [ofText?_digits hne hdigits, hnat, Decimal.nearest?_natCast hn, hback]

end Binary64

end LetterLang

import LetterLang.Json
import LetterLang.Proofs.WholeNumber

/-!
# Numbers in writing

A number is written with the fewest digits that read back to it, and in one of several forms: with a
point among the digits or zeros around them, or with an exponent. Whatever the form, the text is
read as the decimal with those digits, and so as the number.

- `Decimal.nearest?_eq`: the magnitude nearest to a decimal is the one nearest to its quotient, also
  where the decimal is so large or so small that the quotient is not looked at.
- `Magnitude.nearest?_shortest`: the shortest decimal of a magnitude reads back to it.
- `Decimal.Written d cs`: the forms of the text of a decimal.
- `Json.write_written`: the text of a number has one of these forms.
- `Json.ofText?_write`: and is read as the number.
-/

namespace LetterLang

attribute [local instance] natPow

/-! ## Rounding of quotients -/

namespace Magnitude

variable {num den num' den' : Nat}

theorem compare_mul {a b k : Nat} (hk : 0 < k) : compare (a * k) (b * k) = compare a b := by
  rcases Nat.lt_trichotomy a b with h | rfl | h
  · rw [Nat.compare_eq_lt.2 h, Nat.compare_eq_lt.2 (Nat.mul_lt_mul_of_pos_right h hk)]
  · rw [Nat.compare_eq_eq.2 rfl, Nat.compare_eq_eq.2 rfl]
  · rw [Nat.compare_eq_gt.2 h, Nat.compare_eq_gt.2 (Nat.mul_lt_mul_of_pos_right h hk)]

theorem roundHalfEven_mul {k : Nat} (hk : 0 < k) :
    roundHalfEven (num * k) (den * k) = roundHalfEven num den := by
  unfold roundHalfEven
  rw [Nat.mul_div_mul_right num den hk, Nat.mul_mod_mul_right k num den, ← Nat.mul_assoc,
    compare_mul hk]

theorem nearestUnits_mul {k : Nat} (hk : 0 < k) :
    nearestUnits (num * k) (den * k) = nearestUnits num den := by
  have hgap : gap (num * k) (den * k) = gap num den := by
    rw [gap, gap, Nat.mul_div_mul_right num den hk]
  rw [nearestUnits, nearestUnits, hgap, Nat.mul_right_comm, roundHalfEven_mul hk]

theorem nearest?_of_units (h : nearestUnits num den = nearestUnits num' den') :
    nearest? num den = nearest? num' den' := by
  simp only [nearest?, h]

theorem nearest?_congr (hden : 0 < den) (hden' : 0 < den') (h : num * den' = num' * den) :
    nearest? num den = nearest? num' den' := by
  refine nearest?_of_units ?_
  calc nearestUnits num den
      = nearestUnits (num * den') (den * den') := (nearestUnits_mul hden').symm
    _ = nearestUnits (num' * den) (den' * den) := by rw [h, Nat.mul_comm den den']
    _ = nearestUnits num' den' := nearestUnits_mul hden

/-- Rounding a whole number of units does not go below a power of two. -/
theorem two_pow_le_nearestUnits {units k : Nat} (h : 2 ^ k ≤ units) :
    2 ^ k ≤ nearestUnits units 1 := by
  have hne : units ≠ 0 := Nat.ne_of_gt (Nat.lt_of_lt_of_le (Nat.two_pow_pos k) h)
  have hk : k ≤ units.log2 := (Nat.le_log2 hne).2 h
  have hfloor : units / (1 * 2 ^ gap units 1) ≤ roundHalfEven units (1 * 2 ^ gap units 1) := by
    unfold roundHalfEven
    dsimp only
    split <;> omega
  have hgap : gap units 1 ≤ units.log2 := by
    rw [gap, Nat.div_one]
    omega
  have hsplit : 2 ^ units.log2 = 2 ^ (units.log2 - gap units 1) * 2 ^ gap units 1 := by
    rw [← Nat.pow_add, Nat.sub_add_cancel hgap]
  refine Nat.le_trans (Nat.pow_le_pow_right (by decide) hk) ?_
  rw [nearestUnits, hsplit]
  refine Nat.mul_le_mul_right _ (Nat.le_trans ?_ hfloor)
  rw [Nat.one_mul, Nat.le_div_iff_mul_le (Nat.two_pow_pos _), ← hsplit]
  exact Nat.log2_self_le hne

theorem nearest?_eq_none {units : Nat} (h : unitsTooMany ≤ units) : nearest? units 1 = none := by
  have hle : unitsTooMany ≤ nearestUnits units 1 := by
    rw [unitsTooMany] at h ⊢
    generalize 2098 = k at h ⊢
    exact two_pow_le_nearestUnits h
  rw [nearest?, dif_neg (Nat.not_lt.2 hle)]

theorem nearest?_eq_zero (h : 2 * num < den) : nearest? num den = some zero := by
  have hlt : num < den := by omega
  have hround : roundHalfEven num den = 0 := by
    unfold roundHalfEven
    rw [Nat.div_eq_of_lt hlt, Nat.mod_eq_of_lt hlt, Nat.compare_eq_lt.2 h]
  have hunits : nearestUnits num den = 0 := by
    rw [nearestUnits, gap, Nat.div_eq_of_lt hlt, Nat.log2_zero, Nat.zero_sub, Nat.pow_zero,
      Nat.mul_one, Nat.mul_one, hround]
  rw [nearest?, dif_pos (by rw [hunits]; exact unitsTooMany_pos)]
  simp only [hunits, zero]

end Magnitude

/-! ## Decimals as quotients -/

namespace Decimal

variable {d : Decimal}

theorem two_pow_le_ten_pow : 2 ^ (1024 : Nat) ≤ 10 ^ (309 : Nat) := by
  decide +kernel

/-- A number with 309 digits before the point is too large. -/
theorem unitsTooMany_le {digits e : Nat} (hd : digits ≠ 0) (he : 308 < e) :
    unitsTooMany ≤ digits * 10 ^ e * unitsInOne := by
  have hten := two_pow_le_ten_pow
  have he : 309 ≤ e := he
  generalize 309 = n at hten he
  have hpow : 2 ^ (1024 : Nat) ≤ digits * 10 ^ e := by
    calc 2 ^ (1024 : Nat) ≤ 10 ^ n := hten
      _ ≤ 10 ^ e := Nat.pow_le_pow_right (by decide) he
      _ ≤ digits * 10 ^ e := Nat.le_mul_of_pos_left _ (Nat.pos_of_ne_zero hd)
  have hexp : 2098 = 1024 + 1074 := rfl
  rw [unitsTooMany, unitsInOne]
  generalize 2098 = all at hexp ⊢
  generalize 1074 = low at hexp ⊢
  generalize 1024 = high at hexp hpow
  rw [hexp, Nat.pow_add]
  exact Nat.mul_le_mul_right _ hpow

theorem two_mul_units_lt {digits e k : Nat} (hk : unitsInOne = 2 ^ k)
    (h : digits.log2 + k + 2 < 3 * e) : 2 * (digits * unitsInOne) < 10 ^ e := by
  rw [hk]
  have hlog : digits < 2 ^ (digits.log2 + 1) := Nat.lt_log2_self
  calc 2 * (digits * 2 ^ k)
      < 2 * (2 ^ (digits.log2 + 1) * 2 ^ k) := by
        refine Nat.mul_lt_mul_of_pos_left (Nat.mul_lt_mul_of_pos_right hlog ?_) ?_
        · exact Nat.two_pow_pos k
        · decide
    _ = 2 ^ (digits.log2 + 1 + k + 1) := by rw [← Nat.pow_add, ← Nat.pow_succ']
    _ ≤ 2 ^ (3 * e) := Nat.pow_le_pow_right (by decide) (by omega)
    _ = 8 ^ e := Nat.pow_mul 2 3 e
    _ ≤ 10 ^ e := Nat.pow_le_pow_left (by decide) e

/-- **The magnitude nearest to a decimal** is the one nearest to its quotient. -/
theorem nearest?_eq (d : Decimal) : d.nearest? = Magnitude.nearest?
    (d.digits * 10 ^ d.exponent.toNat * unitsInOne) (10 ^ (-d.exponent).toNat) := by
  obtain ⟨digits, exponent⟩ := d
  rw [nearest?]
  by_cases hd : digits = 0
  · have hpos : 0 < 10 ^ (-exponent).toNat := Nat.pow_pos (by decide)
    rw [if_pos hd, hd, Nat.zero_mul, Nat.zero_mul]
    exact (Magnitude.nearest?_eq_zero hpos).symm
  · rw [if_neg hd]
    cases exponent with
    | ofNat e =>
        have hself : (Int.ofNat e).toNat = e := rfl
        have hzero : (-Int.ofNat e).toNat = 0 := by simp
        dsimp only
        rw [hself, hzero, Nat.pow_zero]
        split
        · next he => exact (Magnitude.nearest?_eq_none (unitsTooMany_le hd he)).symm
        · rfl
    | negSucc e =>
        have hzero : (Int.negSucc e).toNat = 0 := rfl
        have hself : (-Int.negSucc e).toNat = e + 1 := rfl
        dsimp only
        rw [hself, hzero, Nat.pow_zero, Nat.mul_one]
        split
        · next he => exact (Magnitude.nearest?_eq_zero (two_mul_units_lt rfl he)).symm
        · rfl

/-- Zeros at the end of the digits count as the exponent does. -/
theorem nearest?_shift (digits k : Nat) (e : Int) :
    nearest? ⟨digits * 10 ^ k, e⟩ = nearest? ⟨digits, e + k⟩ := by
  rw [nearest?_eq, nearest?_eq]
  refine Magnitude.nearest?_congr (Nat.pow_pos (by decide)) (Nat.pow_pos (by decide)) ?_
  have hexp : k + e.toNat + (-(e + k)).toNat = (e + k).toNat + (-e).toNat := by omega
  generalize unitsInOne = u
  calc digits * 10 ^ k * 10 ^ e.toNat * u * 10 ^ (-(e + k)).toNat
      = digits * 10 ^ (k + e.toNat + (-(e + k)).toNat) * u := by
        rw [Nat.pow_add, Nat.pow_add]
        ac_rfl
    _ = digits * 10 ^ (e + k).toNat * u * 10 ^ (-e).toNat := by
        rw [hexp, Nat.pow_add]
        ac_rfl

/-- Dropping zeros keeps the number. -/
theorem nearest?_dropZeros (fuel : Nat) (d : Decimal) :
    (dropZeros fuel d).nearest? = d.nearest? := by
  induction fuel generalizing d with
  | zero => rfl
  | succ fuel ih =>
      rw [dropZeros]
      split
      · next hd =>
        have hdigits : d.digits / 10 * 10 ^ (1 : Nat) = d.digits := by omega
        rw [ih, ← Int.natCast_one, ← nearest?_shift, hdigits]
      · rfl

theorem nearest?_canonical (d : Decimal) : d.canonical.nearest? = d.nearest? :=
  nearest?_dropZeros _ d

end Decimal

namespace Magnitude

theorem nearest?_mul_five_pow {k : Nat} (hk : unitsInOne = 2 ^ k) (units : Nat) :
    Decimal.nearest? ⟨units * 5 ^ k, -k⟩ = nearest? units 1 := by
  rw [Decimal.nearest?_eq, hk]
  refine nearest?_congr (Nat.pow_pos (by decide)) Nat.one_pos ?_
  have h₁ : (-(k : Int)).toNat = 0 := by omega
  have h₂ : (- -(k : Int)).toNat = k := by omega
  simp only [h₁, h₂]
  rw [Nat.pow_zero, Nat.mul_one, Nat.mul_one, Nat.mul_assoc, ← Nat.mul_pow]

/-- The decimal with all digits of a magnitude is that magnitude. -/
theorem nearest?_exact (m : Magnitude) : m.exact.nearest? = some m := by
  rw [exact, Decimal.nearest?_canonical]
  exact (nearest?_mul_five_pow rfl m.units).trans m.nearest?_units

/-- **The shortest decimal of a magnitude reads back to it.** -/
theorem nearest?_shortest (tie : Tie) (m : Magnitude) : (m.shortest tie).nearest? = some m := by
  rw [shortest]
  split
  · next h =>
    obtain ⟨units, hm⟩ := m
    cases h
    rfl
  · dsimp only
    rw [Decimal.nearest?_canonical]
    cases hfound : (List.range 17).findSome? (fun (n : Nat) =>
        m.onGrid? tie (m.leadingExponent - n)) with
    | none =>
        rw [Option.getD_none]
        exact m.nearest?_exact
    | some d =>
        obtain ⟨n, -, hn⟩ := List.exists_of_findSome?_eq_some hfound
        rw [Option.getD_some]
        exact (onGrid?_readsBack hn).1

end Magnitude

/-! ## The forms of a number -/

open Binary64 (natOfDigits exponent? decimal?)

def Text.AllDigits (cs : List Char) : Prop :=
  ∀ c ∈ cs, Text.isDigit c = true

def Text.inNumber (c : Char) : Bool :=
  isDigit c || c = '.' || c = 'e' || c = '+' || c = '-'

theorem Text.AllDigits.inNumber {cs : List Char} (h : AllDigits cs) :
    ∀ c ∈ cs, inNumber c = true := by
  intro c hc
  rw [Text.inNumber, h c hc]
  rfl

open Text (AllDigits)

inductive Decimal.WrittenExponent : Int → List Char → Prop
  | plus {ds : List Char} : ds ≠ [] → AllDigits ds → WrittenExponent (natOfDigits ds) ('+' :: ds)
  | minus {ds : List Char} : ds ≠ [] → AllDigits ds → WrittenExponent (-natOfDigits ds) ('-' :: ds)

/-- The text of a decimal that is not a mere sequence of digits: it has a point among the digits, an
exponent after them, or both. -/
inductive Decimal.Written : Decimal → List Char → Prop
  | fraction {whole fraction : List Char} : whole ≠ [] → AllDigits whole → AllDigits fraction →
      Written ⟨natOfDigits (whole ++ fraction), -fraction.length⟩ (whole ++ '.' :: fraction)
  | exponent {whole es : List Char} {e : Int} : whole ≠ [] → AllDigits whole →
      WrittenExponent e es → Written ⟨natOfDigits whole, e⟩ (whole ++ 'e' :: es)
  | both {whole fraction es : List Char} {e : Int} : whole ≠ [] → AllDigits whole →
      AllDigits fraction → WrittenExponent e es →
      Written ⟨natOfDigits (whole ++ fraction), e - fraction.length⟩
        (whole ++ '.' :: (fraction ++ 'e' :: es))

namespace Decimal

variable {d : Decimal} {e : Int} {cs es : List Char}

theorem WrittenExponent.read (h : WrittenExponent e es) : exponent? es = some e := by
  cases h with
  | plus hne hdigits =>
      have hall : List.all _ Text.isDigit = true := List.all_eq_true.2 hdigits
      simp [exponent?, hne, hall]
  | minus hne hdigits =>
      have hall : List.all _ Text.isDigit = true := List.all_eq_true.2 hdigits
      simp [exponent?, hne, hall]

/-- **Each form is read as its decimal.** -/
theorem Written.read (h : Written d cs) : decimal? cs = some d := by
  have htake : ∀ {ds tail : List Char}, AllDigits ds → tail.takeWhile Text.isDigit = [] →
      (ds ++ tail).takeWhile Text.isDigit = ds := by
    intro ds tail hds htail
    rw [List.takeWhile_append_of_pos hds, htail, List.append_nil]
  have hdrop : ∀ {ds tail : List Char}, AllDigits ds → tail.dropWhile Text.isDigit = tail →
      (ds ++ tail).dropWhile Text.isDigit = tail := by
    intro ds tail hds htail
    rw [List.dropWhile_append_of_pos hds, htail]
  cases h with
  | @fraction whole fraction hne hw hf =>
      have hf₁ : (fraction ++ []).takeWhile Text.isDigit = fraction := htake hf rfl
      have hf₂ : (fraction ++ []).dropWhile Text.isDigit = [] := hdrop hf rfl
      rw [List.append_nil] at hf₁ hf₂
      simp only [decimal?]
      rw [htake hw rfl, hdrop hw rfl]
      simp [hf₁, hf₂, hne]
  | exponent hne hw he =>
      simp only [decimal?]
      rw [htake hw rfl, hdrop hw rfl]
      simp [hne, he.read]
  | @both whole fraction es e hne hw hf he =>
      have hf₁ : (fraction ++ 'e' :: es).takeWhile Text.isDigit = fraction := htake hf rfl
      have hf₂ : (fraction ++ 'e' :: es).dropWhile Text.isDigit = 'e' :: es := hdrop hf rfl
      simp only [decimal?]
      rw [htake hw rfl, hdrop hw rfl]
      simp [hf₁, hf₂, hne, he.read]

theorem Written.starts (h : Written d cs) : ∃ c tail, cs = c :: tail ∧ Text.isDigit c = true := by
  have hwhole : ∀ {whole tail : List Char}, whole ≠ [] → AllDigits whole →
      ∃ c cs, whole ++ tail = c :: cs ∧ Text.isDigit c = true := by
    intro whole tail hne hw
    obtain ⟨c, whole, rfl⟩ := List.exists_cons_of_ne_nil hne
    exact ⟨c, whole ++ tail, rfl, hw c List.mem_cons_self⟩
  cases h with
  | fraction hne hw hf => exact hwhole hne hw
  | exponent hne hw he => exact hwhole hne hw
  | both hne hw hf he => exact hwhole hne hw

theorem Written.not_digits (h : Written d cs) : ¬ AllDigits cs := by
  intro hall
  cases h with
  | fraction hne hw hf => exact absurd (hall '.' (by simp)) (by decide)
  | exponent hne hw he => exact absurd (hall 'e' (by simp)) (by decide)
  | both hne hw hf he => exact absurd (hall '.' (by simp)) (by decide)

theorem WrittenExponent.inNumber (h : WrittenExponent e es) :
    ∀ c ∈ es, Text.inNumber c = true := by
  cases h with
  | plus _ hdigits => exact List.forall_mem_cons.2 ⟨rfl, hdigits.inNumber⟩
  | minus _ hdigits => exact List.forall_mem_cons.2 ⟨rfl, hdigits.inNumber⟩

theorem Written.inNumber (h : Written d cs) : ∀ c ∈ cs, Text.inNumber c = true := by
  cases h with
  | fraction _ hw hf =>
      refine List.forall_mem_append.2 ⟨hw.inNumber, ?_⟩
      exact List.forall_mem_cons.2 ⟨rfl, hf.inNumber⟩
  | exponent _ hw he =>
      refine List.forall_mem_append.2 ⟨hw.inNumber, ?_⟩
      exact List.forall_mem_cons.2 ⟨rfl, he.inNumber⟩
  | both _ hw hf he =>
      refine List.forall_mem_append.2 ⟨hw.inNumber, ?_⟩
      refine List.forall_mem_cons.2 ⟨rfl, List.forall_mem_append.2 ⟨hf.inNumber, ?_⟩⟩
      exact List.forall_mem_cons.2 ⟨rfl, he.inNumber⟩

end Decimal

/-! ## Digits -/

namespace Binary64

theorem allDigits_toDigits (n : Nat) : AllDigits (Nat.toDigits 10 n) :=
  fun _ hc => isDigit_of_mem_toDigits hc

theorem allDigits_replicate (k : Nat) : AllDigits (List.replicate k '0') := by
  intro c hc
  rw [List.eq_of_mem_replicate hc]
  rfl

theorem natOfDigits_toDigits (n : Nat) : natOfDigits (Nat.toDigits 10 n) = n := by
  rw [natOfDigits_eq, Nat.ofDigitChars_ten_toDigits]

theorem natOfDigits_zeros_append (k : Nat) (ds : List Char) :
    natOfDigits (List.replicate k '0' ++ ds) = natOfDigits ds := by
  rw [natOfDigits_eq, natOfDigits_eq, Nat.ofDigitChars_append,
    Nat.ofDigitChars_replicate_zero]
  rfl

theorem natOfDigits_append_zeros (ds : List Char) (k : Nat) :
    natOfDigits (ds ++ List.replicate k '0') = natOfDigits ds * 10 ^ k := by
  rw [natOfDigits_eq, natOfDigits_eq, Nat.ofDigitChars_append,
    Nat.ofDigitChars_replicate_zero, Nat.mul_comm]

end Binary64

/-! ## The text of a number -/

namespace Json

open Binary64 NumberFormat

variable {n : Nat} {e : Int}

theorem toList_digitsText (n : Nat) : (digitsText n).toList = Nat.toDigits 10 n :=
  String.toList_ofList

/-- A text with a point is that of `n` at the exponent `e`, where its digits are `n` and `k` more
zeros, and the point stands `k - e` places before their end. -/
theorem fraction_written {whole fraction cs : List Char} {k : Nat}
    (hcs : cs = whole ++ '.' :: fraction) (hne : whole ≠ []) (hwhole : AllDigits whole)
    (hfraction : AllDigits fraction) (hvalue : natOfDigits (whole ++ fraction) = n * 10 ^ k)
    (hpoint : e + fraction.length = k) :
    ∃ d, Decimal.Written d cs ∧ d.nearest? = Decimal.nearest? ⟨n, e⟩ := by
  have hexponent : -(fraction.length : Int) + k = e := by omega
  subst hcs
  refine ⟨_, .fraction hne hwhole hfraction, ?_⟩
  rw [hvalue, Decimal.nearest?_shift, hexponent]

/-- Written positionally, a decimal keeps its value. -/
theorem writePositional_written : ∃ d, Decimal.Written d
      (numberFormat.writePositional (digitsText n) (e + (digitsText n).length)).toList ∧
    d.nearest? = Decimal.nearest? ⟨n, e⟩ := by
  have hlength : (digitsText n).length = (Nat.toDigits 10 n).length := String.length_ofList
  have hdigits := allDigits_toDigits n
  have hvalue := natOfDigits_toDigits n
  have hne : Nat.toDigits 10 n ≠ [] := Nat.toDigits_ne_nil
  have htext := toList_digitsText n
  generalize hpoint : e + ((digitsText n).length : Int) = point
  rw [hlength] at hpoint
  unfold NumberFormat.writePositional
  rw [hlength]
  generalize Nat.toDigits 10 n = ds at *
  split
  · next k =>
    -- Zeros stand between the point and the digits.
    have hlist : ("0." ++ zeros (k + 1) ++ digitsText n).toList =
        ['0'] ++ '.' :: (List.replicate (k + 1) '0' ++ ds) := by
      simp [zeros, htext]
    refine fraction_written hlist (by simp) (allDigits_replicate 1)
      (List.forall_mem_append.2 ⟨allDigits_replicate _, hdigits⟩) (k := 0) ?_ ?_
    · rw [← List.append_assoc, Nat.pow_zero, Nat.mul_one]
      exact (natOfDigits_zeros_append (k + 2) ds).trans hvalue
    · rw [List.length_append, List.length_replicate]
      omega
  · have hlist : ("0." ++ digitsText n).toList = ['0'] ++ '.' :: ds := by
      simp [htext]
    refine fraction_written hlist (by simp) (allDigits_replicate 1) hdigits (k := 0) ?_ ?_
    · rw [Nat.pow_zero, Nat.mul_one]
      exact (natOfDigits_zeros_append 1 ds).trans hvalue
    · exact hpoint
  · next k hk =>
    rw [Int.ofNat_eq_natCast] at hpoint
    dsimp only
    split
    · next hle =>
      -- Zeros stand between the digits and the point, and one zero behind it.
      obtain ⟨j, rfl⟩ := Nat.exists_eq_add_of_le hle
      have hlist : (digitsText n ++ zeros (ds.length + j - ds.length) ++
          numberFormat.wholeSuffix).toList = (ds ++ List.replicate j '0') ++ '.' :: ['0'] := by
        simp [zeros, htext, numberFormat]
      have hzeros : List.replicate j '0' ++ ['0'] = List.replicate (j + 1) '0' :=
        List.replicate_succ'.symm
      refine fraction_written hlist (by simp [hne])
        (List.forall_mem_append.2 ⟨hdigits, allDigits_replicate _⟩) (allDigits_replicate 1)
        (k := j + 1) ?_ ?_
      · rw [List.append_assoc, hzeros, natOfDigits_append_zeros, hvalue]
      · rw [List.length_singleton]
        omega
    · next hlt =>
      -- The point stands among the digits.
      have hlist : (String.ofList ((digitsText n).toList.take k) ++ "." ++
          String.ofList ((digitsText n).toList.drop k)).toList = ds.take k ++ '.' :: ds.drop k := by
        simp [htext]
      have hk : k ≠ 0 := hk
      refine fraction_written hlist (by simp [hne, hk])
        (fun c hc => hdigits c (List.mem_of_mem_take hc))
        (fun c hc => hdigits c (List.mem_of_mem_drop hc)) (k := 0) ?_ ?_
      · rw [List.take_append_drop, hvalue, Nat.pow_zero, Nat.mul_one]
      · rw [List.length_drop]
        omega

theorem toList_writeScientific (digits : String) (x : Int) :
    ∃ es, Decimal.WrittenExponent x es ∧ (NumberFormat.writeScientific digits x).toList =
      (match digits.toList with
        | first :: second :: rest => first :: '.' :: second :: rest
        | few => few) ++ 'e' :: es := by
  cases x with
  | ofNat k =>
      have hexponent := Decimal.WrittenExponent.plus Nat.toDigits_ne_nil (allDigits_toDigits k)
      rw [natOfDigits_toDigits] at hexponent
      refine ⟨_, hexponent, ?_⟩
      unfold NumberFormat.writeScientific
      rcases digits.toList with _ | ⟨first, _ | ⟨second, rest⟩⟩ <;> simp [toList_digitsText]
  | negSucc k =>
      have hexponent :=
        Decimal.WrittenExponent.minus Nat.toDigits_ne_nil (allDigits_toDigits (k + 1))
      rw [natOfDigits_toDigits] at hexponent
      refine ⟨_, hexponent, ?_⟩
      unfold NumberFormat.writeScientific
      rcases digits.toList with _ | ⟨first, _ | ⟨second, rest⟩⟩ <;> simp [toList_digitsText]

/-- Written with an exponent, a decimal keeps its value. -/
theorem writeScientific_written : ∃ d, Decimal.Written d
      (NumberFormat.writeScientific (digitsText n) (e + (digitsText n).length - 1)).toList ∧
    d.nearest? = Decimal.nearest? ⟨n, e⟩ := by
  have hlength : (digitsText n).length = (Nat.toDigits 10 n).length := String.length_ofList
  have hdigits := allDigits_toDigits n
  have hvalue := natOfDigits_toDigits n
  have hne : Nat.toDigits 10 n ≠ [] := Nat.toDigits_ne_nil
  obtain ⟨es, hexponent, hlist⟩ :=
    toList_writeScientific (digitsText n) (e + (digitsText n).length - 1)
  rw [hlist, toList_digitsText]
  rw [hlength] at hexponent
  generalize Nat.toDigits 10 n = ds at *
  cases ds with
  | nil => exact absurd rfl hne
  | cons first ds =>
      have hfirst : AllDigits [first] := fun c hc =>
        hdigits c (List.mem_singleton.1 hc ▸ List.mem_cons_self)
      cases ds with
      | nil =>
          refine ⟨_, .exponent (List.cons_ne_nil _ _) hfirst hexponent, ?_⟩
          rw [hvalue, List.length_singleton]
          exact congrArg (fun e => Decimal.nearest? ⟨n, e⟩) (by omega)
      | cons second ds =>
          have hrest : AllDigits (second :: ds) := fun c hc =>
            hdigits c (List.mem_cons_of_mem _ hc)
          have hwritten := Decimal.Written.both (List.cons_ne_nil first []) hfirst hrest hexponent
          refine ⟨_, hwritten, ?_⟩
          rw [List.singleton_append, hvalue, List.length_cons (a := first)]
          exact congrArg (fun e => Decimal.nearest? ⟨n, e⟩) (by omega)

/-- **The text of a number** is the text of a decimal that reads back to it. -/
theorem write_written (m : Magnitude) :
    ∃ d, Decimal.Written d (numberFormat.write m).toList ∧ d.nearest? = some m := by
  have hback := m.nearest?_shortest .toEven
  unfold NumberFormat.write
  rw [show numberFormat.tie = .toEven from rfl]
  generalize m.shortest .toEven = d at hback
  dsimp only
  split
  · next hzero =>
    have hwritten := Decimal.Written.fraction (List.cons_ne_nil '0' []) (allDigits_replicate 1)
      (allDigits_replicate 1)
    have hnothing : d.nearest? = some .zero := by rw [Decimal.nearest?, if_pos hzero]
    refine ⟨_, hwritten, ?_⟩
    rw [← hback, hnothing]
    rfl
  · rw [← hback]
    split
    · rw [Int.sub_add_cancel]
      exact writePositional_written
    · exact writeScientific_written

end Json

namespace Binary64

/-- What starts with a digit is read as a decimal. -/
theorem unsigned?_of_digit {c : Char} {cs : List Char} (hc : Text.isDigit c = true)
    (negative : Bool) : unsigned? negative (c :: cs) = (decimal? (c :: cs)).map fun d =>
      match d.nearest? with
      | some m => .finite negative m
      | none => .infinite negative := by
  have hword : ∀ (first : Char) (word : String), Text.isDigit first = false →
      word.toList.head? = some first → String.ofList ((c :: cs).map Char.toLower) ≠ word := by
    rintro first word hfirst hhead rfl
    rw [String.toList_ofList, List.map_cons, List.head?_cons, toLower_of_isDigit hc] at hhead
    cases hhead
    cases hc.symm.trans hfirst
  unfold unsigned?
  split
  · next h => exact absurd h (hword 'n' _ (by decide) rfl)
  · next h => exact absurd h (hword 'i' _ (by decide) rfl)
  · next h => exact absurd h (hword 'i' _ (by decide) rfl)
  · rfl

end Binary64

/-- **A number that is written is read back**, with its sign. -/
theorem Json.ofText?_decimal (negative : Bool) (m : Magnitude) :
    Binary64.ofText? (scalarText (.decimal negative m)) = some (.finite negative m) := by
  obtain ⟨d, hwritten, hback⟩ := write_written m
  obtain ⟨c, tail, hcs, hc⟩ := hwritten.starts
  have hread : ∀ negative, Binary64.unsigned? negative (numberFormat.write m).toList =
      some (.finite negative m) := by
    intro negative
    rw [hcs, Binary64.unsigned?_of_digit hc, ← hcs, hwritten.read, Option.map_some, hback]
  unfold Binary64.ofText?
  cases negative with
  | true =>
      have hlist : (scalarText (.decimal true m)).toList =
          '-' :: (numberFormat.write m).toList := by
        simp [scalarText]
      rw [hlist]
      exact hread true
  | false =>
      have hlist : (scalarText (.decimal false m)).toList = (numberFormat.write m).toList := by
        simp [scalarText]
      rw [hlist]
      split
      · next h =>
        cases hcs.symm.trans h
        cases hc
      · next h =>
        cases hcs.symm.trans h
        cases hc
      · exact hread false

end LetterLang

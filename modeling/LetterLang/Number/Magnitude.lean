/-!
# Magnitudes of binary64 numbers

A finite binary64 number without its sign is a whole number of units of 2⁻¹⁰⁷⁴: below 2⁵³ units
every whole number, above that the multiples of the power of two that leaves 53 bits, and less
than 2²⁰⁹⁸ units in all. Rounding to the nearest such number, a tie going to the even one, is
done on exact quotients of natural numbers.
-/

namespace LetterLang

/-- The powers of natural numbers. A module whose definitions have powers makes this instance local,
so that they do not depend on which other powers are in scope. -/
@[reducible] def natPow : Pow Nat Nat :=
  instPowNat

attribute [local instance] natPow

/-- The units in the number 1. -/
def unitsInOne : Nat :=
  2 ^ (1074 : Nat)

/-- The units in 2¹⁰²⁴, the first power of two that is no finite binary64 number. -/
def unitsTooMany : Nat :=
  2 ^ (2098 : Nat)

theorem unitsTooMany_pos : 0 < unitsTooMany := by
  rw [unitsTooMany]
  apply Nat.pow_pos
  decide

/-- The numbers of units that are binary64 magnitudes: at most 53 significant bits, and less than
2¹⁰²⁴ as a value. -/
def Representable (units : Nat) : Prop :=
  units < unitsTooMany ∧ 2 ^ (units.log2 - 52) ∣ units

instance (units : Nat) : Decidable (Representable units) :=
  inferInstanceAs (Decidable (_ ∧ _))

/-- A finite binary64 number without its sign, in units of 2⁻¹⁰⁷⁴. -/
structure Magnitude where
  units : Nat
  representable : Representable units
deriving DecidableEq

namespace Magnitude

/-- The whole number nearest to a quotient, a tie going to the even one. -/
def roundHalfEven (num den : Nat) : Nat :=
  let floor := num / den
  match compare (2 * (num % den)) den with
  | .lt => floor
  | .gt => floor + 1
  | .eq => floor + floor % 2

theorem roundHalfEven_le (num den : Nat) : roundHalfEven num den ≤ num / den + 1 := by
  unfold roundHalfEven
  dsimp only
  split <;> omega

/-- The power of two that numbers near `num / den` units are multiples of. -/
def gap (num den : Nat) : Nat :=
  (num / den).log2 - 52

/-- The units of the binary64 number nearest to `num / den` units, did the exponent have no upper
end. -/
def nearestUnits (num den : Nat) : Nat :=
  roundHalfEven num (den * 2 ^ gap num den) * 2 ^ gap num den

/-- A multiple of 2ᵏ by at most 2⁵³ has at most 53 significant bits. -/
theorem dvd_of_le_two_pow {m k : Nat} (hm : m ≤ 2 ^ (53 : Nat)) :
    2 ^ ((m * 2 ^ k).log2 - 52) ∣ m * 2 ^ k := by
  rcases Nat.eq_or_lt_of_le hm with rfl | hlt
  · rw [← Nat.pow_add, Nat.log2_two_pow]
    exact Nat.pow_dvd_pow 2 (by omega)
  · rcases Nat.eq_zero_or_pos m with rfl | hpos
    · simp
    · have hne : m * 2 ^ k ≠ 0 := by
        have : 0 < 2 ^ k := Nat.two_pow_pos k
        exact Nat.ne_of_gt (Nat.mul_pos hpos this)
      have hlog : (m * 2 ^ k).log2 < 53 + k := by
        rw [Nat.log2_lt hne, Nat.pow_add]
        exact Nat.mul_lt_mul_of_pos_right hlt (Nat.two_pow_pos k)
      exact Nat.dvd_trans (Nat.pow_dvd_pow 2 (by omega)) (Nat.dvd_mul_left _ _)

theorem roundHalfEven_gap_le (num den : Nat) :
    roundHalfEven num (den * 2 ^ gap num den) ≤ 2 ^ (53 : Nat) := by
  have h := roundHalfEven_le num (den * 2 ^ gap num den)
  rw [← Nat.div_div_eq_div_mul] at h
  have : num / den / 2 ^ gap num den < 2 ^ (53 : Nat) := by
    rw [Nat.div_lt_iff_lt_mul (Nat.two_pow_pos _), ← Nat.pow_add]
    exact Nat.lt_of_lt_of_le Nat.lt_log2_self (Nat.pow_le_pow_right (by decide) (by unfold gap; omega))
  omega

/-- The magnitude nearest to `num / den` units, a tie going to the even one; none when that is
2¹⁰²⁴ or more. -/
def nearest? (num den : Nat) : Option Magnitude :=
  let units := nearestUnits num den
  if h : units < unitsTooMany then
    some ⟨units, h, dvd_of_le_two_pow (roundHalfEven_gap_le num den)⟩
  else none

def zero : Magnitude :=
  ⟨0, unitsTooMany_pos, Nat.dvd_zero _⟩

def mul? (a b : Magnitude) : Option Magnitude :=
  nearest? (a.units * b.units) unitsInOne

def div? (a b : Magnitude) : Option Magnitude :=
  nearest? (a.units * unitsInOne) b.units

def toNat? (m : Magnitude) : Option Nat :=
  if m.units % unitsInOne = 0 then some (m.units / unitsInOne) else none

end Magnitude

/-- The decimal number `digits · 10^exponent`. -/
structure Decimal where
  digits : Nat
  exponent : Int
deriving DecidableEq, Repr

namespace Decimal

/-- The magnitude nearest to a decimal number, a tie going to the even one; none when it is too
large. A number with 309 digits before the point is too large, and one below 2⁻¹⁰⁷⁵ is nearest to
zero: neither needs the power of ten. -/
def nearest? (d : Decimal) : Option Magnitude :=
  if d.digits = 0 then some .zero
  else match d.exponent with
    | .ofNat e =>
      if 308 < e then none else Magnitude.nearest? (d.digits * 10 ^ e * unitsInOne) 1
    | .negSucc e =>
      if d.digits.log2 + 1076 < 3 * (e + 1) then some .zero
      else Magnitude.nearest? (d.digits * unitsInOne) (10 ^ (e + 1))

/-- The same number without trailing zeros in its digits. `fuel` bounds how many are dropped. -/
def dropZeros : Nat → Decimal → Decimal
  | 0, d => d
  | fuel + 1, d =>
    if d.digits ≠ 0 ∧ d.digits % 10 = 0 then dropZeros fuel ⟨d.digits / 10, d.exponent + 1⟩ else d

def canonical (d : Decimal) : Decimal :=
  dropZeros d.digits.log2 d

end Decimal

end LetterLang

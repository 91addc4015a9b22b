import LetterLang.Proofs.NumberText

/-!
# Rounding to the nearest number

Rounding takes the magnitude that is nearest to a number of units among all magnitudes, and of two
that are equally near the one whose last significant bit is zero. Numbers from half a gap below
2¹⁰²⁴ on are rounded to no finite number.

- `Magnitude.IsNearest`: the nearest magnitude, said by distances only.
- `Magnitude.isNearest_of_nearest?`: rounding finds it.
- `Decimal.nearest?_eq_none_iff`: the whole numbers that are too large for a finite number.
-/

namespace LetterLang

attribute [local instance] natPow

namespace Magnitude

def distance (a b : Nat) : Nat :=
  a - b + (b - a)

/-- Whether the last of the significant bits is zero. -/
def IsEven (m : Magnitude) : Prop :=
  m.units / 2 ^ (m.units.log2 - 52) % 2 = 0

/-- No magnitude is nearer to a number of units; and if another one is as near, this one is even. -/
structure IsNearest (m : Magnitude) (units : Nat) : Prop where
  closest : ∀ m' : Magnitude, distance m.units units ≤ distance m'.units units
  even : ∀ m' : Magnitude, m' ≠ m → distance m'.units units = distance m.units units → m.IsEven

variable {num den units k q : Nat} {m : Magnitude}

/-! ## One step of a grid -/

theorem roundHalfEven_cases (num den : Nat) :
    (2 * (num % den) < den ∧ roundHalfEven num den = num / den) ∨
    (den < 2 * (num % den) ∧ roundHalfEven num den = num / den + 1) ∨
    (2 * (num % den) = den ∧ roundHalfEven num den = num / den + num / den % 2) := by
  unfold roundHalfEven
  dsimp only
  split
  · next h => exact .inl ⟨Nat.compare_eq_lt.1 h, rfl⟩
  · next h => exact .inr (.inl ⟨Nat.compare_eq_gt.1 h, rfl⟩)
  · next h => exact .inr (.inr ⟨Nat.compare_eq_eq.1 h, rfl⟩)

/-- A quotient is rounded by at most half a step, and by half a step only to an even number. -/
theorem distance_roundHalfEven (num : Nat) (hden : 0 < den) :
    2 * distance (roundHalfEven num den * den) num ≤ den ∧
      (2 * distance (roundHalfEven num den * den) num = den → roundHalfEven num den % 2 = 0) := by
  have hnum := Nat.div_add_mod' num den
  have hmod := Nat.mod_lt num hden
  have hnext := Nat.add_one_mul (num / den) den
  unfold distance
  rcases roundHalfEven_cases num den with ⟨h, hr⟩ | ⟨h, hr⟩ | ⟨h, hr⟩
  · rw [hr]
    omega
  · rw [hr]
    omega
  · rcases Nat.mod_two_eq_zero_or_one (num / den) with hparity | hparity
    · rw [hr, hparity, Nat.add_zero]
      omega
    · rw [hr, hparity]
      omega

theorem le_distance_add_distance (h : k ≠ q) (den num : Nat) :
    den ≤ distance (k * den) num + distance (q * den) num := by
  have hstep : ∀ {a b : Nat}, a < b → a * den + den ≤ b * den := by
    intro a b hab
    have hle := Nat.mul_le_mul_right den (Nat.succ_le_of_lt hab)
    rwa [Nat.succ_mul] at hle
  unfold distance
  rcases Nat.lt_or_gt_of_ne h with hlt | hgt
  · have := hstep hlt
    omega
  · have := hstep hgt
    omega

/-- An even number is reached from half a step below it on. -/
theorem le_roundHalfEven_iff (num : Nat) (hden : 0 < den) (hq : q % 2 = 0) :
    q ≤ roundHalfEven num den ↔ 2 * (q * den) ≤ 2 * num + den := by
  have hnum := Nat.div_add_mod' num den
  have hmod := Nat.mod_lt num hden
  have hround := roundHalfEven_cases num den
  generalize num / den = floor at hnum hround
  rcases Nat.lt_trichotomy q (floor + 1) with hlt | heq | hgt
  · have hle := Nat.mul_le_mul_right den (Nat.le_of_lt_succ hlt)
    omega
  · have hnext := Nat.add_one_mul floor den
    rw [heq, hnext]
    omega
  · have hnext : (floor + 2) * den ≤ q * den := Nat.mul_le_mul_right den hgt
    rw [Nat.add_mul] at hnext
    omega

/-! ## The grid of the magnitudes -/

theorem nearestUnits_one (units : Nat) : nearestUnits units 1 =
    roundHalfEven units (2 ^ (units.log2 - 52)) * 2 ^ (units.log2 - 52) := by
  rw [nearestUnits, gap, Nat.div_one, Nat.one_mul]

theorem ext_units {m m' : Magnitude} (h : m.units = m'.units) : m = m' := by
  obtain ⟨units, hm⟩ := m
  obtain ⟨units', hm'⟩ := m'
  obtain rfl : units = units' := h
  rfl

theorem units_of_nearest? (h : nearest? num den = some m) : m.units = nearestUnits num den := by
  rw [nearest?] at h
  split at h
  · cases h
    rfl
  · cases h

/-- Either every whole number is a magnitude here, or the number has at least 53 bits. -/
theorem gap_eq_zero_or_le (units : Nat) : units.log2 - 52 = 0 ∨
    2 ^ (52 : Nat) * 2 ^ (units.log2 - 52) ≤ units := by
  rcases Nat.eq_zero_or_pos (units.log2 - 52) with hgap | hgap
  · exact .inl hgap
  · have hne : units ≠ 0 := by
      rintro rfl
      simp at hgap
    have hlog : 52 + (units.log2 - 52) = units.log2 := by omega
    refine .inr ?_
    rw [← Nat.pow_add, hlog]
    exact Nat.log2_self_le hne

/-- A magnitude is a multiple of the gap at `units`, or it lies below the power of two that is
under `units`. -/
theorem dvd_or_lt (m : Magnitude) (units : Nat) : 2 ^ (units.log2 - 52) ∣ m.units ∨
    m.units < 2 ^ (52 : Nat) * 2 ^ (units.log2 - 52) ∧
      2 ^ (52 : Nat) * 2 ^ (units.log2 - 52) ≤ units := by
  rcases Nat.lt_or_ge (m.units.log2 - 52) (units.log2 - 52) with hlt | hge
  · refine .inr ⟨?_, (gap_eq_zero_or_le units).resolve_left (by omega)⟩
    rw [← Nat.pow_add]
    exact Nat.lt_of_lt_of_le Nat.lt_log2_self (Nat.pow_le_pow_right (by decide) (by omega))
  · exact .inl (Nat.dvd_trans (Nat.pow_dvd_pow 2 hge) m.representable.2)

/-- A magnitude that is not the one that rounding gives is farther off, or as far off when both are
off by half a gap. -/
theorem distance_lt_or_tie (m : Magnitude) (hne : m.units ≠ nearestUnits units 1) :
    distance (nearestUnits units 1) units < distance m.units units ∨
      (distance (nearestUnits units 1) units = distance m.units units ∧
        2 * distance (nearestUnits units 1) units = 2 ^ (units.log2 - 52)) := by
  rw [nearestUnits_one] at hne ⊢
  have hside := dvd_or_lt m units
  have hpos : 0 < 2 ^ (units.log2 - 52) := Nat.two_pow_pos _
  generalize 2 ^ (units.log2 - 52) = step at hne hside hpos ⊢
  have hhalf := (distance_roundHalfEven units hpos).1
  rcases hside with ⟨k, hk⟩ | ⟨hbelow, hunits⟩
  · rw [Nat.mul_comm] at hk
    rw [hk] at hne ⊢
    have hsum := le_distance_add_distance (fun h => hne (congrArg (· * step) h)) step units
    omega
  · -- The power of two is a multiple of the gap, and nearer than what lies below it.
    left
    have hpower : distance (2 ^ (52 : Nat) * step) units < distance m.units units := by
      unfold distance
      omega
    refine Nat.lt_of_le_of_lt ?_ hpower
    by_cases heq : 2 ^ (52 : Nat) = roundHalfEven units step
    · exact Nat.le_of_eq (by rw [heq])
    · have hsum := le_distance_add_distance heq step units
      omega

/-- What an even quotient gives is even. -/
theorem isEven_of_units {g : Nat} (hm : m.units = q * 2 ^ g) (heven : q % 2 = 0)
    (hle : q ≤ 2 ^ (53 : Nat)) (hge : g = 0 ∨ 2 ^ (52 : Nat) ≤ q) : m.IsEven := by
  have hpos : 0 < 2 ^ g := Nat.two_pow_pos g
  rw [IsEven, hm]
  rcases Nat.eq_or_lt_of_le hle with rfl | hlt
  · have hlog : 53 + g - 52 = g + 1 := by omega
    have hhalf : 53 + g = 52 + (g + 1) := by omega
    rw [← Nat.pow_add, Nat.log2_two_pow, hlog, hhalf, Nat.pow_add,
      Nat.mul_div_cancel _ (Nat.two_pow_pos _)]
  · have hgap : (q * 2 ^ g).log2 - 52 = g := by
      rcases Nat.eq_zero_or_pos q with rfl | hq
      · have hg : g = 0 := hge.resolve_right (by decide)
        simp [hg]
      · have hne : q * 2 ^ g ≠ 0 := Nat.ne_of_gt (Nat.mul_pos hq hpos)
        have hupper : (q * 2 ^ g).log2 < 53 + g := by
          rw [Nat.log2_lt hne, Nat.pow_add]
          exact Nat.mul_lt_mul_of_pos_right hlt hpos
        rcases hge with hg | hq
        · omega
        · have hlower : 52 + g ≤ (q * 2 ^ g).log2 := by
            rw [Nat.le_log2 hne, Nat.pow_add]
            exact Nat.mul_le_mul_right _ hq
          omega
    rw [hgap, Nat.mul_div_cancel _ hpos, heven]

theorem le_roundHalfEven (num den : Nat) : num / den ≤ roundHalfEven num den := by
  rcases roundHalfEven_cases num den with ⟨-, hr⟩ | ⟨-, hr⟩ | ⟨-, hr⟩ <;> omega

/-- **Rounding finds the nearest magnitude**, and the even one of two. -/
theorem isNearest_of_nearest? (h : nearest? units 1 = some m) : m.IsNearest units := by
  have hm := units_of_nearest? h
  refine ⟨fun m' => ?_, fun m' hne htie => ?_⟩
  · rw [hm]
    by_cases heq : m'.units = nearestUnits units 1
    · exact Nat.le_of_eq (by rw [heq])
    · have := distance_lt_or_tie m' heq
      omega
  · have hunits : m'.units ≠ nearestUnits units 1 := fun heq => hne (ext_units (heq.trans hm.symm))
    rw [hm] at htie
    have hhalf : 2 * distance (nearestUnits units 1) units = 2 ^ (units.log2 - 52) := by
      have := distance_lt_or_tie m' hunits
      omega
    rw [nearestUnits_one] at hm hhalf
    have heven := (distance_roundHalfEven units (Nat.two_pow_pos (units.log2 - 52))).2 hhalf
    refine isEven_of_units hm heven ?_ ?_
    · have hle := roundHalfEven_gap_le units 1
      rwa [gap, Nat.div_one, Nat.one_mul] at hle
    · refine (gap_eq_zero_or_le units).imp_right fun hle => ?_
      exact Nat.le_trans ((Nat.le_div_iff_mul_le (Nat.two_pow_pos _)).2 hle)
        (le_roundHalfEven _ _)

/-! ## The largest numbers -/

theorem nearestUnits_le (units : Nat) : 2 * nearestUnits units 1 ≤ 3 * units + 1 := by
  have hhalf := (distance_roundHalfEven units (Nat.two_pow_pos (units.log2 - 52))).1
  rw [← nearestUnits_one] at hhalf
  have hgap : 2 ^ (units.log2 - 52) ≤ units + 1 := by
    rcases gap_eq_zero_or_le units with hzero | hle
    · rw [hzero]
      omega
    · omega
  unfold distance at hhalf
  omega

/-- What is rounded to a power of two or more lies at most half of the gap below it. -/
theorem two_pow_le_nearestUnits_iff (k : Nat) :
    2 ^ (k + 54) ≤ nearestUnits units 1 ↔ 2 ^ (k + 54) ≤ units + 2 ^ k := by
  rcases Nat.lt_or_ge units (2 ^ (k + 53)) with hsmall | hsmall
  · have hle := nearestUnits_le units
    have h₁ : 2 ^ (k + 54) = 2 * 2 ^ (k + 53) := by rw [Nat.pow_succ, Nat.mul_comm]
    have h₂ : 2 ^ (k + 53) = 2 ^ (53 : Nat) * 2 ^ k := by rw [Nat.add_comm, Nat.pow_add]
    have hpos : 0 < 2 ^ k := Nat.two_pow_pos k
    omega
  rcases Nat.lt_or_ge units (2 ^ (k + 54)) with hlarge | hlarge
  · have hne : units ≠ 0 := by
      have : 0 < 2 ^ (k + 53) := Nat.two_pow_pos _
      omega
    have hlog : units.log2 - 52 = k + 1 := by
      have hlower := (Nat.le_log2 hne).2 hsmall
      have hupper := (Nat.log2_lt hne).2 hlarge
      omega
    have heven : 2 ^ (53 : Nat) % 2 = 0 := by decide
    have hreach := le_roundHalfEven_iff units (Nat.two_pow_pos (k + 1)) heven
    have hstep : 2 ^ (k + 1) = 2 * 2 ^ k := by rw [Nat.pow_succ, Nat.mul_comm]
    have htop : 2 ^ (k + 54) = 2 ^ (53 : Nat) * 2 ^ (k + 1) := by
      rw [← Nat.pow_add]
      congr 1
      omega
    rw [nearestUnits_one, hlog, htop, Nat.mul_le_mul_right_iff (Nat.two_pow_pos _), hreach, hstep]
    omega
  · exact iff_of_true (two_pow_le_nearestUnits hlarge) (Nat.le_trans hlarge (Nat.le_add_right _ _))

end Magnitude

namespace Decimal

theorem nearest?_whole (n : Nat) :
    nearest? ⟨n, 0⟩ = Magnitude.nearest? (n * unitsInOne) 1 := by
  have hone : n * 10 ^ (0 : Nat) * unitsInOne = n * unitsInOne := by
    rw [Nat.pow_zero, Nat.mul_one]
  rw [nearest?_eq]
  exact congrArg (Magnitude.nearest? · 1) hone

/-- A whole number is too large from half a gap below the first power of two that is too large. -/
theorem nearest?_whole_eq_none_iff (n : Nat) {half one limit many : Nat}
    (hone : unitsInOne = 2 ^ one) (hmany : unitsTooMany = 2 ^ many)
    (hlimit : limit = half + 54) (hsum : many = limit + one) :
    nearest? ⟨n, 0⟩ = none ↔ 2 ^ limit ≤ n + 2 ^ half := by
  have hnone : nearest? ⟨n, 0⟩ = none ↔
      unitsTooMany ≤ Magnitude.nearestUnits (n * unitsInOne) 1 := by
    rw [nearest?_whole, Magnitude.nearest?]
    split
    · next h => exact iff_of_false (Option.some_ne_none _) (Nat.not_le.2 h)
    · next h => exact iff_of_true rfl (Nat.not_lt.1 h)
  have hexp : many = half + one + 54 := by omega
  rw [hnone, hmany, hexp, Magnitude.two_pow_le_nearestUnits_iff, ← hexp, hone, hsum, Nat.pow_add,
    Nat.pow_add, ← Nat.add_mul, Nat.mul_le_mul_right_iff (Nat.two_pow_pos one)]

/-- **The whole numbers that are too large** are those from 2¹⁰²⁴ − 2⁹⁷⁰ on. -/
theorem nearest?_eq_none_iff (n : Nat) :
    nearest? ⟨n, 0⟩ = none ↔ 2 ^ (1024 : Nat) - 2 ^ (970 : Nat) ≤ n := by
  have hone : unitsInOne = 2 ^ (1074 : Nat) := by rw [unitsInOne]
  have hmany : unitsTooMany = 2 ^ (2098 : Nat) := by rw [unitsTooMany]
  have hlimit : 1024 = 970 + 54 := by decide
  have hsum : 2098 = 1024 + 1074 := by decide
  rw [Nat.sub_le_iff_le_add]
  exact nearest?_whole_eq_none_iff n hone hmany hlimit hsum

end Decimal

end LetterLang

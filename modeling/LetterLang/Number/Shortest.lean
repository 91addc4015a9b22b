import LetterLang.Number.Magnitude

/-!
# Shortest decimals

A magnitude is written with the fewest decimal digits that read back to it. For one digit, two
digits and so on, the two neighbours of the value on the grid of decimals with that many digits
are tried; the first grid with a neighbour that reads back is taken. Of two such neighbours the
nearer one counts, and where both are equally near a rule decides.
-/

namespace LetterLang

attribute [local instance] natPow

/-- Which of two equally near decimals is taken. -/
inductive Tie where
  | toEven
  | up
deriving DecidableEq, Repr

namespace Magnitude

def readsBack (m : Magnitude) (d : Decimal) : Bool :=
  d.nearest? = some m

/-- The value in steps of `10^exponent`, as a quotient. -/
def inSteps (m : Magnitude) : Int → Nat × Nat
  | .ofNat e => (m.units, unitsInOne * 10 ^ e)
  | .negSucc e => (m.units * 10 ^ (e + 1), unitsInOne)

/-- Of the two neighbours of the value on the grid of step `10^exponent`, the one that reads back,
or the nearer if both do. -/
def onGrid? (tie : Tie) (m : Magnitude) (exponent : Int) : Option Decimal :=
  let (num, den) := m.inSteps exponent
  let below : Decimal := ⟨num / den, exponent⟩
  let above : Decimal := ⟨num / den + 1, exponent⟩
  match m.readsBack below, m.readsBack above with
  | true, false => some below
  | false, true => some above
  | false, false => none
  | true, true =>
    match compare (2 * (num % den)) den with
    | .lt => some below
    | .gt => some above
    | .eq =>
      match tie with
      | .up => some above
      | .toEven => some (if below.digits % 2 = 0 then below else above)

/-- How many decimal digits a whole number has, none for zero. `fuel` bounds the count. -/
def digitCount : Nat → Nat → Nat
  | 0, _ => 0
  | fuel + 1, n => if n = 0 then 0 else digitCount fuel (n / 10) + 1

/-- How many zeros follow the point before the first digit of the value `num / den` below 1.
`fuel` bounds the count. -/
def leadingZeros : Nat → Nat → Nat → Nat
  | 0, _, _ => 0
  | fuel + 1, num, den => if den ≤ 10 * num then 0 else leadingZeros fuel (10 * num) den + 1

/-- The exponent of the leading decimal digit of a magnitude other than zero. -/
def leadingExponent (m : Magnitude) : Int :=
  let whole := m.units / unitsInOne
  -- There are at most 309 digits before the point, and at most 323 zeros behind it.
  if whole = 0 then -(leadingZeros 330 m.units (unitsInOne) : Int) - 1
  else (digitCount 310 whole : Int) - 1

def exact (m : Magnitude) : Decimal :=
  Decimal.canonical ⟨m.units * 5 ^ (1074 : Nat), -1074⟩

/-- The shortest decimal that reads back to the magnitude, and the nearest of those. -/
def shortest (tie : Tie) (m : Magnitude) : Decimal :=
  if m.units = 0 then ⟨0, 0⟩
  else
    let top := m.leadingExponent
    -- Seventeen digits tell all magnitudes apart.
    let found := (List.range 17).findSome? fun (n : Nat) => m.onGrid? tie (top - n)
    (found.getD m.exact).canonical

end Magnitude

end LetterLang

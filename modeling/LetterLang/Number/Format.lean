import LetterLang.Number.Binary64
import LetterLang.Number.Shortest

/-!
# Formats of numbers

A finite number is written with its shortest digits, positionally or with an exponent. A format
says where it changes from one to the other, whether a whole number keeps a zero after the point,
and how a tie between two shortest decimals is broken.
-/

namespace LetterLang

/-- The format decisions for writing a magnitude. -/
structure NumberFormat where
  tie : Tie
  /-- Exponents of the leading digit for which the number is written positionally. -/
  positional : Int → Bool
  /-- What stands after the last digit of a whole number. -/
  wholeSuffix : String

namespace NumberFormat

def digitsText (n : Nat) : String :=
  String.ofList (Nat.toDigits 10 n)

def zeros (n : Nat) : String :=
  String.ofList (List.replicate n '0')

/-- Digits with `point` of them before the point; zeros fill what is missing on either side. -/
def writePositional (format : NumberFormat) (digits : String) (point : Int) : String :=
  let count := digits.length
  match point with
  | .negSucc n => "0." ++ zeros (n + 1) ++ digits
  | .ofNat 0 => "0." ++ digits
  | .ofNat n =>
    if count ≤ n then digits ++ zeros (n - count) ++ format.wholeSuffix
    else String.ofList (digits.toList.take n) ++ "." ++ String.ofList (digits.toList.drop n)

/-- One digit before the point, the others after it, and the exponent with its sign. -/
def writeScientific (digits : String) (exponent : Int) : String :=
  let mantissa := match digits.toList with
    | first :: second :: rest => String.ofList (first :: '.' :: second :: rest)
    | few => String.ofList few
  match exponent with
  | .ofNat n => mantissa ++ "e+" ++ digitsText n
  | .negSucc n => mantissa ++ "e-" ++ digitsText (n + 1)

def write (format : NumberFormat) (m : Magnitude) : String :=
  let d := m.shortest format.tie
  if d.digits = 0 then "0" ++ format.wholeSuffix
  else
    let digits := digitsText d.digits
    let leading := d.exponent + digits.length - 1
    if format.positional leading then format.writePositional digits (leading + 1)
    else writeScientific digits leading

end NumberFormat

end LetterLang

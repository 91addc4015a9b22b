import LetterLang.Number.Magnitude
import LetterLang.Text

/-!
# Binary64 numbers

A number of the language is a binary64 number: not a number, an infinity, or a sign and a
magnitude. A decimal text is read as the number nearest to it.
-/

namespace LetterLang

inductive Binary64 where
  | nan
  | infinite (negative : Bool)
  | finite (negative : Bool) (magnitude : Magnitude)
deriving DecidableEq

namespace Binary64

def isFinite : Binary64 → Bool
  | .finite .. => true
  | _ => false

def natOfDigits (cs : List Char) : Nat :=
  cs.foldl (fun n c => 10 * n + (c.toNat - '0'.toNat)) 0

/-- An exponent: a sign, which may be missing, and at least one digit, up to the end. -/
def exponent? (cs : List Char) : Option Int :=
  let (negative, digits) := match cs with
    | '-' :: ds => (true, ds)
    | '+' :: ds => (false, ds)
    | ds => (false, ds)
  if digits.isEmpty || !digits.all Text.isDigit then none
  else some (if negative then -(natOfDigits digits : Int) else natOfDigits digits)

/-- An unsigned decimal: digits with a point among them or not, and an exponent or none. -/
def decimal? (cs : List Char) : Option Decimal :=
  let whole := cs.takeWhile Text.isDigit
  let (fraction, rest) := match cs.dropWhile Text.isDigit with
    | '.' :: ds => (ds.takeWhile Text.isDigit, ds.dropWhile Text.isDigit)
    | ds => ([], ds)
  let scaled (e : Int) : Decimal := ⟨natOfDigits (whole ++ fraction), e - fraction.length⟩
  if whole.isEmpty && fraction.isEmpty then none
  else match rest with
    | [] => some (scaled 0)
    | 'e' :: es | 'E' :: es => (exponent? es).map scaled
    | _ => none

/-- An unsigned number: a decimal, or a name for an infinity or for no number, in any case. -/
def unsigned? (negative : Bool) (cs : List Char) : Option Binary64 :=
  match String.ofList (cs.map Char.toLower) with
  | "nan" => some .nan
  | "inf" | "infinity" => some (.infinite negative)
  | _ => (decimal? cs).map fun d =>
    match d.nearest? with
    | some m => .finite negative m
    | none => .infinite negative

/-- The number that a text stands for. A decimal too large for a finite number is an infinity. -/
def ofText? (text : String) : Option Binary64 :=
  match text.toList with
  | '-' :: cs => unsigned? true cs
  | '+' :: cs => unsigned? false cs
  | cs => unsigned? false cs

end Binary64

end LetterLang

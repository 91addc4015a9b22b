import LetterLang.Text

/-!
# Lines and columns

A line map holds the byte offset at which each line of a text starts: offset 0, and the offset
after each newline. The line of a position is found by a binary search among the starts: it is the
line that starts there, or else the one before the first that starts later, so a position past the
end belongs to the last line.
-/

namespace LetterLang

/-- A place in a text: line and column, both counted from 0, the column in bytes. -/
structure LineColumn where
  line : UInt32
  character : UInt32
deriving DecidableEq, Repr

namespace LineColumn

/-- Whether the line and column counted from 1 are words. -/
def fits (p : LineColumn) : Bool :=
  p.line.toNat + 1 < UInt32.size && p.character.toNat + 1 < UInt32.size

/-- A place is shown as `line:column`, both counted from 1. -/
def text (p : LineColumn) : String :=
  s!"{p.line.toNat + 1}:{p.character.toNat + 1}"

def text? (p : LineColumn) : Option String :=
  if p.fits then some p.text else none

end LineColumn

/-- The byte offset at which each line starts, first line first. -/
structure LineMap where
  starts : Array UInt32

namespace LineMap

/-- The offsets after each newline of `cs`, which stands at byte offset `offset`. -/
def startsAfterNewlines (offset : Nat) : List Char → List UInt32
  | [] => []
  | c :: cs =>
    let next := offset + c.utf8Size
    if c = '\n' then UInt32.ofNat next :: startsAfterNewlines next cs
    else startsAfterNewlines next cs

def ofText (text : String) : LineMap :=
  ⟨(0 :: startsAfterNewlines 0 text.toList).toArray⟩

/-- What a search among sorted numbers comes to: the index of the number, or the index at which it
would have to be inserted. -/
inductive Search where
  | found (index : Nat)
  | missing (index : Nat)
deriving DecidableEq, Repr

/-- The search for `position`, which can only be among the starts from `low` on and below `high`. -/
def searchBetween (starts : Array UInt32) (position : UInt32) (low high : Nat) : Search :=
  if low < high then
    let middle := (low + high) / 2
    let start := starts.getD middle 0
    if start = position then .found middle
    else if start < position then searchBetween starts position (middle + 1) high
    else searchBetween starts position low middle
  else .missing low
termination_by high - low

def search (map : LineMap) (position : UInt32) : Search :=
  searchBetween map.starts position 0 map.starts.size

/-- The line, counted from 0, that a byte offset belongs to. -/
def lineOf (map : LineMap) (position : UInt32) : Nat :=
  match map.search position with
  | .found line => line
  -- No line starts here, so the position lies in the one before. The first line starts at 0.
  | .missing line => line - 1

def locate (map : LineMap) (position : UInt32) : LineColumn :=
  let line := map.lineOf position
  ⟨UInt32.ofNat line, position - map.starts.getD line 0⟩

end LineMap

end LetterLang

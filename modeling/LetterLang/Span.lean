/-!
# Spans

A span is a stretch of source text: the byte offset where it starts and its length, both 32-bit
words. The end of a span is a natural number, because the sum of two words need not be a word;
`stop?` and `text?` give the end and the text only where the end is one.
-/

namespace LetterLang

structure Span where
  start : UInt32
  length : UInt32
deriving DecidableEq, Repr, Inhabited

namespace Span

def empty (position : UInt32) : Span :=
  ⟨position, 0⟩

/-- The stretch of `length` bytes from offset `start`, reduced to words. -/
def ofNat (start length : Nat) : Span :=
  ⟨UInt32.ofNat start, UInt32.ofNat length⟩

def stop (s : Span) : Nat :=
  s.start.toNat + s.length.toNat

/-- The offset just after the span, where it is a word. -/
def stop? (s : Span) : Option UInt32 :=
  if s.stop < UInt32.size then some (s.start + s.length) else none

/-- A span is shown as its two ends, `start..stop`. -/
def text (s : Span) : String :=
  s!"{s.start.toNat}..{s.stop}"

def text? (s : Span) : Option String :=
  s.stop?.map fun _ => s.text

end Span

end LetterLang

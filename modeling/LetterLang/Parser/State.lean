import LetterLang.Token.Scanner

/-!
# Parser steps

The state of a parse is the tokens still to be consumed, the first of which is the lookahead, the
tokens consumed so far, and the current depth of nesting. The steps here are all that productions
do to it: look at the next kind of token, consume a token, go one level deeper, and repeat.

A source is scanned no further than the lookahead: a place that cannot be scanned fails the parse
only when the lookahead would move onto it.
-/

namespace LetterLang

/-- What stays fixed during a parse: how deep statements and expressions may nest, and how the
tokens of the source end. -/
structure Setting where
  limit : UInt32
  ending : Ending

def Ending.offset : Ending → UInt32
  | .complete offset => offset
  | .fault error => error.span.start

structure ParseState where
  /-- The tokens still to be consumed. -/
  pending : List Token
  /-- The tokens consumed so far, the latest first. -/
  consumed : List Token
  depth : Nat

namespace ParseState

def kind (s : ParseState) : TokenKind :=
  match s.pending with
  | [] => .endOfInput
  | t :: _ => t.kind

def lookahead (s : ParseState) (g : Setting) : Token :=
  s.pending.headD (.endOfInput g.ending.offset)

/-- The tokens that have been scanned so far: those consumed, and the next one. -/
def scanned (s : ParseState) : List Token :=
  s.consumed.reverse ++ s.pending.take 1

end ParseState

/-- Why a production stops without a result: the source is in error, or the calls that it was
given are used up. -/
inductive Stop where
  | failed (error : ParseError)
  | outOfCalls

/-- A parsing step with a result. A step that stops keeps the state it has reached. -/
abbrev Parse := EStateM Stop ParseState

namespace Parse

variable {α : Type}

def fail (e : SyntaxError) : Parse α :=
  throw (.failed (.grammar e))

def kind : Parse TokenKind :=
  return (← get).kind

def lookahead (g : Setting) : Parse Token :=
  return (← get).lookahead g

/-- Ends the parse because the next token is not what its place calls for. -/
def unexpected (g : Setting) (expected : Expectation) : Parse α := do
  match (← get).pending with
  | [] => fail (.unexpectedEnd expected g.ending.offset)
  | t :: _ => fail (.unexpectedToken t.text expected t.span)

/-- Consumes the next token, which must be of the given kind. The token after it becomes the
lookahead, so a source that cannot be scanned there fails now. -/
def eat (g : Setting) (expected : TokenKind) : Parse Token := do
  let s ← get
  match s.pending with
  | [] => unexpected g (.token expected)
  | t :: rest =>
    if t.kind = expected then
      -- The token fits, but without a place behind it to go on from it is not consumed.
      match rest, g.ending with
      | [], .fault e => throw (.failed (.scan e))
      | _, _ => do
        set { s with pending := rest, consumed := t :: s.consumed }
        return t
    else unexpected g (.token expected)

def delimiter (g : Setting) (d : Delimiter) : Parse Unit :=
  discard (eat g (.delimiter d))

def keyword (g : Setting) (k : Keyword) : Parse Unit :=
  discard (eat g (.keyword k))

/-- Consumes an identifier and gives its name. -/
def identifier (g : Setting) : Parse String :=
  return (← eat g .identifier).text

/-- Goes one level deeper, if the limit allows it. -/
def enter (g : Setting) : Parse Unit := do
  let s ← get
  if g.limit.toNat ≤ s.depth then fail (.nestingTooDeep g.limit (s.lookahead g).span)
  else set { s with depth := s.depth + 1 }

def leave (s : ParseState) : ParseState :=
  { s with depth := s.depth - 1 }

/-- Runs a step one level deeper. The level is left again whether the step succeeds or stops. -/
def nested (g : Setting) (p : Parse α) : Parse α := do
  enter g
  fun s => match p s with
    | .ok a s' => .ok a (leave s')
    | .error e s' => .error e (leave s')

/-- Repeats a step while the next token is of a kind that calls for more, at most once for each
token of `fuel`. -/
def repeatWhile (more : TokenKind → Bool) (step : α → Parse α) : List Token → α → Parse α
  | [], a => return a
  | _ :: fuel, a => do
    if more (← kind) then repeatWhile more step fuel (← step a) else return a

/-- Repeats a step while the next token is of a kind that calls for more. A step that consumes a
token is repeated at most once for each token that is left. -/
def whileKind (more : TokenKind → Bool) (step : α → Parse α) (a : α) : Parse α := do
  repeatWhile more step (← get).pending a

def collectWhile (more : TokenKind → Bool) (item : Parse α) : Parse (List α) := do
  let items ← whileKind more (fun items => return (← item) :: items) []
  return items.reverse

def commaSeparated (g : Setting) (item : Parse α) : Parse (List α) := do
  let first ← item
  let items ← whileKind (· = .delimiter .comma)
    (fun items => do delimiter g .comma; return (← item) :: items) [first]
  return items.reverse

end Parse

end LetterLang

import LetterLang.Parser.Grammar

/-!
# Parsing

A source is parsed to a program, or to the first error in it. The limit bounds how deep statements
and expressions may nest, and with that how many productions are open at once.
-/

namespace LetterLang

/-- How many productions may be open at once within one level of nesting. -/
def callsPerLevel : Nat :=
  16

/-- How many productions may be open at once under a limit on nesting. -/
def callBudget (limit : UInt32) : Nat :=
  callsPerLevel * (limit.toNat + 1)

def Program.parse (g : Setting) : Parse Program :=
  return ⟨← Grammar.statementsUntil (Grammar.run g (callBudget g.limit)) .endOfInput⟩

def TokenStream.parse (stream : TokenStream) (limit : UInt32) :
    EStateM.Result Stop ParseState Program :=
  let start : ParseState := ⟨stream.tokens, [], 0⟩
  match stream.tokens, stream.ending with
  | [], .fault e => .error (.failed (.scan e)) start
  | _, ending => Program.parse ⟨limit, ending⟩ start

/-- The program of a source, or the first error in it. Running out of calls means that the nesting
is too deep; the budget is such that the limit on nesting is met first. -/
def parse (limit : UInt32) (source : String) : Except ParseError Program :=
  let stream := TokenStream.ofSource source
  match stream.parse limit with
  | .ok program _ => .ok program
  | .error (.failed e) _ => .error e
  | .error .outOfCalls s =>
    .error (.grammar (.nestingTooDeep limit (s.lookahead ⟨limit, stream.ending⟩).span))

/-! ## The log of a parse -/

inductive LogLevel where
  | trace | debug
deriving DecidableEq, Repr

def LogLevel.name : LogLevel → String
  | .trace => "TRACE"
  | .debug => "DEBUG"

structure LogRecord where
  level : LogLevel
  message : String

def scannedTokens (limit : UInt32) (source : String) : List Token :=
  match (TokenStream.ofSource source).parse limit with
  | .ok _ s | .error _ s => s.scanned

/-- The log of a parse: each token as it is scanned, then how the parse ends. -/
def parseLog (limit : UInt32) (source : String) : List LogRecord :=
  let tokens := (scannedTokens limit source).map fun t => ⟨.trace, "token " ++ t.display⟩
  let ending := match parse limit source with
    | .ok program => s!"parsed {program.body.length} top-level statement(s)"
    | .error e => s!"parse failed: {e.message}"
  tokens ++ [⟨.debug, ending⟩]

end LetterLang

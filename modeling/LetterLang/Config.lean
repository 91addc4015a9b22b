import LetterLang.Json
import LetterLang.Json.Record

/-!
# Configuration

A configuration is a JSON text with the limit on nesting and the choice of pretty output. Every
part may be missing and then has its default.
-/

namespace LetterLang

structure ParserOptions where
  /-- How deep statements and expressions may nest. -/
  maxDepth : UInt32 := 128
deriving DecidableEq, Repr

structure Config where
  parser : ParserOptions := {}
  /-- Whether JSON output is pretty; not said is yes. -/
  pretty : Option Bool := none
deriving DecidableEq, Repr

namespace Config

def isPretty (c : Config) : Bool :=
  c.pretty.getD true

def toJson (c : Config) : Json :=
  .object
    [("parser", .object [("maxDepth", .natural c.parser.maxDepth.toNat)]),
      ("pretty", (c.pretty.map Json.boolean).getD .null)]

open JsonReader

def parserShape : Shape ParserOptions where
  name := "struct ParserOptions"
  defaults := {}
  fields :=
    [⟨"maxDepth", fun options c => do
      let (n, c) ← word32 c
      return ({ options with maxDepth := n }, c)⟩]

def shape : Shape Config where
  name := "struct LetterConfig"
  defaults := {}
  fields :=
    [⟨"parser", fun config c => do
        let (options, c) ← record parserShape c
        return ({ config with parser := options }, c)⟩,
      ⟨"pretty", fun config c => do
        let (choice, c) ← optional boolean c
        return ({ config with pretty := choice }, c)⟩]

def ofText (text : String) : Except JsonError Config :=
  whole? (record shape) text

end Config

end LetterLang

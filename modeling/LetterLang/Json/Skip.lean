import LetterLang.Json.Lexical

/-!
# Reading JSON: values that are skipped

A value that nothing asks for has to be JSON but is not kept. Lists and objects may nest to any
depth: those that are open are held in a list, innermost first.
-/

namespace LetterLang.JsonReader

open JsonCursor

inductive Open where
  | list | object
deriving DecidableEq, Repr

/-- What comes next: a value, or what may follow in an open list or object. `afterItem` says
whether the list or object already has an item. -/
inductive Expecting where
  | value
  | more (afterItem : Bool)

def skipKey (c : JsonCursor) : Except JsonError JsonCursor := do
  let c := c.skipBlanks
  match c.rest with
  | [] => c.errorAfter .endInObject
  | '"' :: _ =>
    let c := (← skipString (c.advance 1)).skipBlanks
    match c.rest with
    | [] => c.errorAfter .endInObject
    | ':' :: _ => return c.advance 1
    | _ => c.errorAfter .colonExpected
  | _ => c.errorAfter .keyNotString

/-- Skips what is left of a value. `fuel` bounds the number of steps. -/
def skipFrom : Nat → Expecting → List Open → JsonCursor → Except JsonError JsonCursor
  | 0, _, _, c => c.error .endInValue
  | _ + 1, .more _, [], c => .ok c
  | fuel + 1, .value, stack, c =>
    let c := c.skipBlanks
    match c.rest with
    | [] => c.errorAfter .endInValue
    | 'n' :: _ => do skipFrom fuel (.more true) stack (← word ['u', 'l', 'l'] (c.advance 1))
    | 't' :: _ => do skipFrom fuel (.more true) stack (← word ['r', 'u', 'e'] (c.advance 1))
    | 'f' :: _ => do skipFrom fuel (.more true) stack (← word ['a', 'l', 's', 'e'] (c.advance 1))
    | '"' :: _ => do skipFrom fuel (.more true) stack (← skipString (c.advance 1))
    | '-' :: _ => do skipFrom fuel (.more true) stack (← skipNumber (c.advance 1))
    | '[' :: _ => skipFrom fuel (.more false) (.list :: stack) (c.advance 1)
    | '{' :: _ => skipFrom fuel (.more false) (.object :: stack) (c.advance 1)
    | x :: _ =>
      if Text.isDigit x then do skipFrom fuel (.more true) stack (← skipNumber c)
      else c.errorAfter .valueExpected
  | fuel + 1, .more afterItem, .list :: outer, c =>
    let c := c.skipBlanks
    match c.rest with
    | [] => c.errorAfter .endInList
    | ']' :: _ => skipFrom fuel (.more true) outer (c.advance 1)
    | x :: _ =>
      if !afterItem then skipFrom fuel .value (.list :: outer) c
      else if x = ',' then skipFrom fuel .value (.list :: outer) (c.advance 1)
      else c.errorAfter .listCommaExpected
  | fuel + 1, .more afterItem, .object :: outer, c =>
    let c := c.skipBlanks
    match c.rest with
    | [] => c.errorAfter .endInObject
    | '}' :: _ => skipFrom fuel (.more true) outer (c.advance 1)
    | x :: _ =>
      if !afterItem then do skipFrom fuel .value (.object :: outer) (← skipKey c)
      else if x = ',' then do skipFrom fuel .value (.object :: outer) (← skipKey (c.advance 1))
      else c.errorAfter .objectCommaExpected

def skipValue (c : JsonCursor) : Except JsonError JsonCursor :=
  skipFrom (2 * c.rest.length + 2) .value [] c

end LetterLang.JsonReader

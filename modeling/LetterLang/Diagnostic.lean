import LetterLang.Error
import LetterLang.LineMap

/-!
# Diagnostics

A diagnostic is an error as it is reported: a message with its number, and where known the file
and the span it is about. It is shown with the byte offset of the span, or, given the lines of the
file, with line and column.
-/

namespace LetterLang

structure Diagnostic where
  file : Option String
  span : Option Span
  message : String
  code : Nat

namespace Diagnostic

/-- The file, and in parentheses the place in it. Without a file there is no place. -/
def location (d : Diagnostic) (place : Span → String) : String :=
  match d.file with
  | none => ""
  | some file =>
    match d.span with
    | none => file ++ ": "
    | some span => file ++ "(" ++ place span ++ "): "

def body (d : Diagnostic) : String :=
  s!"error L{d.code}: {d.message}"

/-- A diagnostic with the byte offset of its span. -/
def display (d : Diagnostic) : String :=
  d.location (fun span => toString span.start.toNat) ++ d.body

/-- A diagnostic with the line and column of its span. -/
def rendered (d : Diagnostic) (lines : LineMap) : String :=
  d.location (fun span => (lines.locate span.start).text) ++ d.body

/-- The rendered form, where the line and column that it shows are words. -/
def rendered? (d : Diagnostic) (lines : LineMap) : Option String :=
  match d.file, d.span with
  | some _, some span =>
    if (lines.locate span.start).fits then some (d.rendered lines) else none
  | _, _ => some (d.rendered lines)

end Diagnostic

def ParseError.toDiagnostic (e : ParseError) (file : Option String) : Diagnostic :=
  ⟨file, some e.span, e.message, e.code⟩

/-- Diagnostics in the order in which they were reported. -/
structure DiagnosticLog where
  diagnostics : List Diagnostic := []

namespace DiagnosticLog

def add (log : DiagnosticLog) (d : Diagnostic) : DiagnosticLog :=
  ⟨log.diagnostics ++ [d]⟩

def errorCount (log : DiagnosticLog) : Nat :=
  log.diagnostics.length

def hasErrors (log : DiagnosticLog) : Bool :=
  !log.diagnostics.isEmpty

end DiagnosticLog

end LetterLang

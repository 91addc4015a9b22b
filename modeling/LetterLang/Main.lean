import LetterLang.Cli.Run

/-!
# The program

Reads files and the standard input, runs the command line, and writes what the run leaves behind.
-/

namespace LetterLang.Cli

def faultOf : IO.Error → ReadFault
  | .noFileOrDirectory _ _ _ => .notFound
  | .inappropriateType _ 20 _ => .notDirectory
  | .inappropriateType _ 21 _ => .isDirectory
  | .resourceExhausted _ code details | .permissionDenied _ code details
  | .invalidArgument _ code details => .other s!"{details} (os error {code})"
  | e => .other (toString e)

def readText (bytes : IO ByteArray) : IO (Except ReadFault String) := do
  try
    return decodeText (← bytes)
  catch e => return .error (faultOf e)

end LetterLang.Cli

open LetterLang LetterLang.Cli in
def main (arguments : List String) : IO UInt32 := do
  let reader : SourceReader IO :=
    { file := fun path => readText (IO.FS.readBinFile path)
      standardInput := readText do (← IO.getStdin).readBinToEnd }
  match ← execute reader arguments with
  | .error e =>
    IO.eprintln s!"error: {e.message}"
    return 2
  | .ok outcome =>
    IO.print outcome.stdout
    IO.eprint outcome.stderr
    return outcome.exitCode

/-!
# Command line arguments

The arguments are read from left to right; the first one that does not fit, or that asks for the
version or for help, decides. An option takes its value from the same argument after `=`, or from
the next argument if that does not look like a flag. After `--` every argument names a file. The
flags for more log records are counted, whatever is made of their number.
-/

namespace LetterLang.Cli

/-- What the command line asks for. -/
structure Options where
  files : List String := []
  tokens : Bool := false
  print : Bool := false
  compact : Bool := false
  config : Option String := none
  maxDepth : Option UInt32 := none
  verbosity : Nat := 0
deriving DecidableEq, Repr

inductive Command where
  | run (options : Options)
  | version
  | help
deriving DecidableEq, Repr

inductive UsageError where
  | unknown (argument : String)
  | repeated (argument : String)
  | valueMissing (argument : String)
  | valueUnexpected (argument : String)
  | valueInvalid (argument value : String)
deriving DecidableEq, Repr

def UsageError.message : UsageError → String
  | .unknown argument => s!"unexpected argument '{argument}'"
  | .repeated argument => s!"the argument '{argument}' cannot be used multiple times"
  | .valueMissing argument => s!"a value is required for '{argument}'"
  | .valueUnexpected argument => s!"no value is allowed for '{argument}'"
  | .valueInvalid argument value => s!"invalid value '{value}' for '{argument}'"

/-- The whole number that decimal digits stand for, if there is a digit and nothing else. -/
def digits? (cs : List Char) : Option Nat :=
  if cs.isEmpty || !cs.all Char.isDigit then none
  else some (cs.foldl (fun n c => 10 * n + (c.toNat - '0'.toNat)) 0)

/-- A 32-bit word: digits after a sign or none. Only zero may have a minus. -/
def word32? (s : String) : Option UInt32 :=
  let value? := match s.toList with
    | '+' :: cs => digits? cs
    | '-' :: cs => (digits? cs).filter (· = 0)
    | cs => digits? cs
  (value?.filter (· < UInt32.size)).map UInt32.ofNat

/-- Whether an argument is a flag rather than a value: a hyphen and something after it. -/
def looksLikeFlag (argument : String) : Bool :=
  match argument.toList with
  | '-' :: _ :: _ => true
  | _ => false

/-- The name of a long flag, and the value given with it. -/
def splitFlag (cs : List Char) : String × Option String :=
  let name := String.ofList (cs.takeWhile (· ≠ '='))
  match cs.dropWhile (· ≠ '=') with
  | _ :: value => (name, some (String.ofList value))
  | [] => (name, none)

/-- The next thing to do after an argument: go on with the options so far, or stop. -/
abbrev Step := Except UsageError (Options ⊕ Command)

/-- A flag without a value, set once. -/
def setFlag (argument : String) (value : Option String) (isSet : Bool) (set : Options) : Step :=
  if value.isSome then .error (.valueUnexpected argument)
  else if isSet then .error (.repeated argument)
  else .ok (.inl set)

def stopFlag (argument : String) (value : Option String) (command : Command) : Step :=
  if value.isSome then .error (.valueUnexpected argument) else .ok (.inr command)

def addFile (o : Options) (name : String) : Except UsageError Options :=
  if name.isEmpty then .error (.valueMissing "FILE") else .ok { o with files := o.files ++ [name] }

def setConfig (o : Options) (value : String) : Step :=
  if value.isEmpty then .error (.valueMissing "--config")
  else if o.config.isSome then .error (.repeated "--config")
  else .ok (.inl { o with config := some value })

def setMaxDepth (o : Options) (value : String) : Step :=
  match word32? value with
  | none => .error (.valueInvalid "--max-depth" value)
  | some n =>
    if o.maxDepth.isSome then .error (.repeated "--max-depth")
    else .ok (.inl { o with maxDepth := some n })

def valueOption? (name : String) : Option (Options → String → Step) :=
  if name = "--config" then some setConfig
  else if name = "--max-depth" then some setMaxDepth
  else none

/-- A long flag that takes no value of its own. -/
def longFlag (o : Options) (name : String) (value : Option String) : Step :=
  match name with
  | "--tokens" => setFlag name value o.tokens { o with tokens := true }
  | "--print" => setFlag name value o.print { o with print := true }
  | "--compact" => setFlag name value o.compact { o with compact := true }
  | "--verbose" => setFlag name value false { o with verbosity := o.verbosity + 1 }
  | "--version" => stopFlag name value .version
  | "--help" => stopFlag name value .help
  | _ => .error (.unknown name)

def shortFlags (o : Options) : List Char → Step
  | [] => .ok (.inl o)
  | 'v' :: cs => shortFlags { o with verbosity := o.verbosity + 1 } cs
  | 'V' :: _ => .ok (.inr .version)
  | 'h' :: _ => .ok (.inr .help)
  | c :: _ => .error (.unknown (String.ofList ['-', c]))

/-- What an argument asks for that takes no value from the next one. -/
def single (o : Options) (argument : String) : Step :=
  match argument.toList with
  | '-' :: '-' :: cs =>
    let (name, value) := splitFlag ('-' :: '-' :: cs)
    match valueOption? name, value with
    | some set, some value => set o value
    | _, value => longFlag o name value
  | '-' :: c :: cs => shortFlags o (c :: cs)
  | _ => (addFile o argument).map .inl

def readFrom (o : Options) : List String → Except UsageError Command
  | [] => .ok (.run o)
  | "--" :: files => .run <$> files.foldlM addFile o
  | argument :: rest => do
    match valueOption? argument with
    | some set =>
      match rest with
      | [] => throw (.valueMissing argument)
      | value :: rest =>
        if looksLikeFlag value then throw (.valueMissing argument)
        match ← set o value with
        | .inl o => readFrom o rest
        | .inr command => return command
    | none =>
      match ← single o argument with
      | .inl o => readFrom o rest
      | .inr command => return command

def read (arguments : List String) : Except UsageError Command :=
  readFrom {} arguments

end LetterLang.Cli

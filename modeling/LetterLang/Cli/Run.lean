import LetterLang.Cli.Arguments
import LetterLang.Config
import LetterLang.Diagnostic
import LetterLang.Files
import LetterLang.Parser
import LetterLang.Tree.Layout
import LetterLang.Tree.ToJson

/-!
# Running the command line

The configuration is read first, then every input, then each input is worked on by itself. An
input or configuration that cannot be read ends the run; an input in error is reported and does
not touch the output of the others. How files are read is left open: `SourceReader` says it for
any monad, so that a run is a pure function where reading is.

Logging is left out. `Options.verbosity` says which log records go to the standard error beside the
reports, among them those of `parseLog` and how long a run took; here nothing reads it, and what a
run writes are its outputs and its reports.
-/

namespace LetterLang.Cli

structure SourceReader (m : Type → Type) where
  file : String → m (Except ReadFault String)
  standardInput : m (Except ReadFault String)

structure Outcome where
  exitCode : UInt32
  stdout : String
  stderr : String
deriving DecidableEq, Repr

structure Input where
  name : String
  text : String

inductive OutputMode where
  | tokens
  | source
  | json (pretty : Bool)
deriving DecidableEq, Repr

inductive ConfigError where
  | unreadable (path : String) (fault : ReadFault)
  | invalid (path text : String) (error : JsonError)

def ConfigError.message : ConfigError → String
  | .unreadable path fault => s!"cannot read config file {path}: {fault.message}"
  | .invalid path text error => s!"invalid config file {path}: {error.message text}"

def configOf (path : String) (content : Except ReadFault String) : Except ConfigError Config :=
  match content with
  | .error fault => .error (.unreadable path fault)
  | .ok text =>
    match Config.ofText text with
    | .ok config => .ok config
    | .error e => .error (.invalid path text e)

/-- The options of parsing: the command line goes before the configuration. -/
def parserOptions (o : Options) (config : Config) : ParserOptions :=
  match o.maxDepth with
  | some depth => ⟨depth⟩
  | none => config.parser

/-- What is written: tokens go before source text, and that before JSON. -/
def outputMode (o : Options) (config : Config) : OutputMode :=
  if o.tokens then .tokens
  else if o.print then .source
  else .json (!o.compact && config.isPretty)

def render (options : ParserOptions) (mode : OutputMode) (text : String) :
    Except ParseError String :=
  match mode with
  | .tokens =>
    match tokenize text with
    | .ok tokens => .ok (dumpTokens tokens)
    | .error e => .error (.scan e)
  | .source => (parse options.maxDepth text).map (·.print {})
  | .json pretty =>
    (parse options.maxDepth text).map fun program =>
      (if pretty then program.toJson.pretty else program.toJson.compact) ++ "\n"

/-- The line that reports an error in an input. -/
def reportLine (input : Input) (e : ParseError) : String :=
  (e.toDiagnostic (some input.name)).rendered (LineMap.ofText input.text) ++ "\n"

/-- How far a run has come: what it has written, and the errors it has met. -/
structure Progress where
  stdout : String := ""
  stderr : String := ""
  log : DiagnosticLog := {}

/-- One more input, with its output or its error. -/
def Progress.step (p : Progress) (input : Input) : Except ParseError String → Progress
  | .ok output => { p with stdout := p.stdout ++ output }
  | .error e =>
    { p with
      stderr := p.stderr ++ reportLine input e
      log := p.log.add (e.toDiagnostic (some input.name)) }

/-- The last line of a report on a number of errors. -/
def summary (count : Nat) : String :=
  s!"\nFound {count} error" ++ (if count = 1 then "." else "s.") ++ "\n"

def Progress.finish (p : Progress) : Outcome :=
  if p.log.hasErrors then ⟨2, p.stdout, p.stderr ++ summary p.log.errorCount⟩
  else ⟨0, p.stdout, p.stderr⟩

/-- Every input is worked on first; then they are gone through in their order. -/
def progress (options : ParserOptions) (mode : OutputMode) (inputs : List Input) : Progress :=
  let results := inputs.map fun input => render options mode input.text
  (inputs.zip results).foldl (fun p (input, result) => p.step input result) {}

def process (options : ParserOptions) (mode : OutputMode) (inputs : List Input) : Outcome :=
  (progress options mode inputs).finish

/-- A run that ends before any input is worked on. -/
def failure (message : String) : Outcome :=
  ⟨1, "", s!"error: {message}\n"⟩

variable {m : Type → Type} [Monad m]

/-- Reads files in order, up to the first that cannot be read. -/
def readFiles (reader : SourceReader m) : List String → m (Except String (List Input))
  | [] => return .ok []
  | name :: names => do
    match ← reader.file name with
    | .error fault => return .error s!"cannot read {name}: {fault.message}"
    | .ok text => return (← readFiles reader names).map (⟨name, text⟩ :: ·)

/-- Reads the standard input, which stands in where no file is named. -/
def readStandardInput (reader : SourceReader m) : m (Except String (List Input)) := do
  let name := "<stdin>"
  match ← reader.standardInput with
  | .error fault => return .error s!"cannot read {name}: {fault.message}"
  | .ok text => return .ok [⟨name, text⟩]

def readConfig (reader : SourceReader m) (o : Options) : m (Except ConfigError Config) := do
  match o.config with
  | none => return .ok {}
  | some path => return configOf path (← reader.file path)

/-- The run of a command line whose arguments have been read. -/
def run (reader : SourceReader m) (o : Options) : m Outcome := do
  match ← readConfig reader o with
  | .error e => return failure e.message
  | .ok config =>
    let inputs ← if o.files.isEmpty then readStandardInput reader else readFiles reader o.files
    match inputs with
    | .error message => return failure message
    | .ok inputs => return process (parserOptions o config) (outputMode o config) inputs

def versionText : String :=
  "letter 0.1.0\n"

def helpText : String :=
  "letter - parse Letter source into a JSON AST\n\n" ++
  "Usage: letter [OPTIONS] [FILE]...\n\n" ++
  "Options:\n" ++
  "      --tokens         Dump the token stream instead of parsing\n" ++
  "      --print          Reprint the parsed program as Letter source instead of JSON\n" ++
  "      --compact        Emit single-line JSON\n" ++
  "      --config <PATH>  Path to letter.json\n" ++
  "      --max-depth <N>  Maximum nesting depth; overrides the config file\n" ++
  "  -v, --verbose...     Raise log verbosity\n" ++
  "  -h, --help           Print help\n" ++
  "  -V, --version        Print version\n"

def execute (reader : SourceReader m) (arguments : List String) : m (Except UsageError Outcome) := do
  match read arguments with
  | .error e => return .error e
  | .ok .version => return .ok ⟨0, versionText, ""⟩
  | .ok .help => return .ok ⟨0, helpText, ""⟩
  | .ok (.run o) => return .ok (← run reader o)

end LetterLang.Cli

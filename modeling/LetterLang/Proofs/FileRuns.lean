import LetterLang.Cli.Run
import LetterLang.Proofs.Lines
import LetterLang.Proofs.ScannedTokens
import Mathlib.Data.List.Forall2
import Mathlib.Data.List.Induction

/-!
# Runs over files

The command line is run on files. Where one of them cannot be read the run ends before it starts;
otherwise each file is worked on as if it were alone, and what is written for all of them is what is
written for each, one after the other.

- `start_le_of_parse_error`: an error starts within its source. So the line and the column that a
  report shows are words, as long as the file is short enough (`Cli.report_of_mem`).
- `Cli.readFiles_cases`: all files are read, or there is a first one that cannot be.
- `Cli.progress_covers`: what a run has written and logged behind any number of inputs, by one step
  for each (`Cli.Progress.Covers.step`).
- `Cli.Reported`: what a run over files that have been read leaves behind.
- `Cli.run_over_files`: the runs over files, and how two of them are put together.
-/

namespace LetterLang

open Parse

variable {source : String} {limit : UInt32}

/-! ## Where errors start -/

/-- An error starts at a token that is known, or where the tokens end. -/
theorem Parse.Explains.start_le {g : Setting} {known : Token → Prop} {s : ParseState}
    {e : ParseError} {bound : Nat} (hbound : ∀ t, known t → t.span.start.toNat ≤ bound)
    (hend : g.ending.offset.toNat ≤ bound) (hknows : s.Knows known)
    (h : Explains g known s (.failed e)) : e.span.start.toNat ≤ bound := by
  have hnext : ∀ {t rest}, s.pending = t :: rest → t.span.start.toNat ≤ bound := fun hp =>
    hbound _ (hknows _ (hp ▸ List.mem_cons_self))
  cases h with
  | fault he =>
      rw [he] at hend
      exact hend
  | unexpectedToken hp => exact hnext hp
  | expressionExpected hp => exact hnext hp
  | unexpectedLiteral hp => exact hnext hp
  | unexpectedEnd => exact hend
  | nestingTooDeep =>
      cases hp : s.pending with
      | nil =>
          rw [ParseState.lookahead, hp]
          exact hend
      | cons t rest =>
          rw [ParseState.lookahead, hp]
          exact hnext hp
  | invalidTarget ht _ => exact hbound _ ht
  | unknownOperator ht _ => exact hbound _ ht

theorem TokenStream.offset_le (hsize : source.utf8ByteSize < 2 ^ 32) :
    (ofSource source).ending.offset.toNat ≤ source.utf8ByteSize := by
  obtain ⟨last, -, hoffset, hlast⟩ := exists_last hsize
  rw [hoffset]
  exact hlast

theorem start_le_of_tokenize_error {e : ScanError} (hsize : source.utf8ByteSize < 2 ^ 32)
    (h : tokenize source = .error e) : e.span.start.toNat ≤ source.utf8ByteSize := by
  have hoffset := TokenStream.offset_le hsize
  rw [tokenize_eq_error.1 h] at hoffset
  exact hoffset

/-- An error of a parse starts within the source. -/
theorem start_le_of_parse_error {e : ParseError} (hsize : source.utf8ByteSize < 2 ^ 32)
    (h : parse limit source = .error e) : e.span.start.toNat ≤ source.utf8ByteSize := by
  rcases explains_of_parse h with ⟨fault, hstream, rfl⟩ | ⟨-, s', -, hreach, hexplains⟩
  · apply start_le_of_tokenize_error hsize
    exact tokenize_eq_error.2 (congrArg TokenStream.ending hstream)
  · have hoffset := TokenStream.offset_le hsize
    apply hexplains.start_le _ hoffset (hreach.knows fun _ ht => ht)
    intro t ht
    have hstop := TokenStream.stop_le_offset hsize t ht
    rw [Span.stop] at hstop
    omega

theorem LineMap.fits_locate {text : String} {position : UInt32}
    (hsize : text.utf8ByteSize < 2 ^ 32) (hposition : position.toNat + 1 < 2 ^ 32) :
    ((ofText text).locate position).fits = true := by
  have hline := toNat_line_locate hsize position
  have hcharacter := toNat_character_locate hsize position
  have hle := Text.length_newlinesBelow_le (Text.bytes text) position.toNat
  simp only [LineColumn.fits, Bool.and_eq_true, decide_eq_true_eq, UInt32.size]
  omega

namespace Cli

variable {options : ParserOptions} {mode : OutputMode} {reader : SourceReader Id}
  {inputs inputs' : List Input} {names : List String}

theorem start_le_of_render {text : String} {e : ParseError} (hsize : text.utf8ByteSize < 2 ^ 32)
    (h : render options mode text = .error e) : e.span.start.toNat ≤ text.utf8ByteSize := by
  have hparsed : ∀ {f : Program → String}, (parse options.maxDepth text).map f = .error e →
      e.span.start.toNat ≤ text.utf8ByteSize := by
    intro f h
    cases hparse : parse options.maxDepth text with
    | ok program =>
        rw [hparse] at h
        cases h
    | error e' =>
        rw [hparse] at h
        cases h
        exact start_le_of_parse_error hsize hparse
  unfold render at h
  split at h
  · split at h
    · cases h
    · next hscan =>
      cases h
      exact start_le_of_tokenize_error hsize hscan
  · exact hparsed h
  · exact hparsed h

/-! ## What a run over files should leave behind -/

def runOn (reader : SourceReader Id) (o : Options) (files : List String) : Outcome :=
  (run reader { o with files := files }).run

def SourceReader.Readable (reader : SourceReader Id) (name : String) : Prop :=
  ∃ text, reader.file name = .ok text

/-- The inputs are the files of these names with their texts, in their order. -/
def AreRead (reader : SourceReader Id) (names : List String) (inputs : List Input) : Prop :=
  List.Forall₂ (fun name input => input.name = name ∧ reader.file name = .ok input.text)
    names inputs

def outputs (options : ParserOptions) (mode : OutputMode) (inputs : List Input) : List String :=
  inputs.filterMap fun input => (render options mode input.text).toOption

def failures (options : ParserOptions) (mode : OutputMode) (inputs : List Input) :
    List (Input × ParseError) :=
  inputs.filterMap fun input =>
    match render options mode input.text with
    | .ok _ => none
    | .error e => some (input, e)

/-- The line that reports an error, where the line and the column that it shows are words. -/
def report? (failure : Input × ParseError) : Option String :=
  (failure.2.toDiagnostic (some failure.1.name)).rendered? (LineMap.ofText failure.1.text)

/-- What follows the reports on `n` errors. -/
def closing (n : Nat) : String :=
  if n = 0 then ""
  else if n = 1 then "\nFound 1 error.\n"
  else "\nFound " ++ toString n ++ " errors.\n"

/-- What a run over inputs leaves behind: the outputs of those that have no error, the reports on
the others, and how many these are. -/
structure Reported (options : ParserOptions) (mode : OutputMode) (inputs : List Input)
    (outcome : Outcome) : Prop where
  stdout : outcome.stdout = String.join (outputs options mode inputs)
  stderr : ∃ reports : List String, (failures options mode inputs).map report? = reports.map some ∧
    outcome.stderr = String.join (reports.map (· ++ "\n")) ++
      closing (failures options mode inputs).length
  exitCode : outcome.exitCode = if failures options mode inputs = [] then 0 else 2

/-! ## Inputs that have been read -/

theorem outputs_append : outputs options mode (inputs ++ inputs') =
    outputs options mode inputs ++ outputs options mode inputs' :=
  List.filterMap_append

theorem failures_append : failures options mode (inputs ++ inputs') =
    failures options mode inputs ++ failures options mode inputs' :=
  List.filterMap_append

/-- What a run has come to behind some inputs: the outputs of those that have no error, the reports
on the others, and a log of their errors. -/
structure Progress.Covers (options : ParserOptions) (mode : OutputMode) (inputs : List Input)
    (p : Progress) : Prop where
  stdout : p.stdout = String.join (outputs options mode inputs)
  stderr : p.stderr = String.join
    ((failures options mode inputs).map fun failure => reportLine failure.1 failure.2)
  log : p.log.diagnostics =
    (failures options mode inputs).map fun failure => failure.2.toDiagnostic failure.1.name

/-- The step for an input covers one input more. -/
theorem Progress.Covers.step {p : Progress} (h : p.Covers options mode inputs) (input : Input) :
    (p.step input (render options mode input.text)).Covers options mode (inputs ++ [input]) := by
  cases hrender : render options mode input.text with
  | ok output =>
      have hnone : failures options mode [input] = [] := by
        rw [failures, List.filterMap_cons, hrender]
        rfl
      have hone : outputs options mode [input] = [output] := by
        rw [outputs, List.filterMap_cons, hrender]
        rfl
      constructor
      · rw [outputs_append, hone, String.join_append, ← h.stdout]
        rfl
      · rw [failures_append, hnone, List.append_nil]
        exact h.stderr
      · rw [failures_append, hnone, List.append_nil]
        exact h.log
  | error e =>
      have hone : failures options mode [input] = [(input, e)] := by
        rw [failures, List.filterMap_cons, hrender]
        rfl
      have hnone : outputs options mode [input] = [] := by
        rw [outputs, List.filterMap_cons, hrender]
        rfl
      constructor
      · rw [outputs_append, hnone, List.append_nil]
        exact h.stdout
      · rw [failures_append, hone, List.map_append, String.join_append, ← h.stderr]
        rfl
      · rw [failures_append, hone, List.map_append, ← h.log]
        rfl

theorem progress_snoc (inputs : List Input) (input : Input) :
    progress options mode (inputs ++ [input]) =
      (progress options mode inputs).step input (render options mode input.text) := by
  rw [progress, List.map_append, List.zip_append (List.length_map _).symm, List.foldl_append]
  rfl

/-- **A run goes through its inputs one by one** and covers them all. -/
theorem progress_covers (inputs : List Input) :
    (progress options mode inputs).Covers options mode inputs := by
  induction inputs using List.reverseRecOn with
  | nil => exact ⟨rfl, rfl, rfl⟩
  | append_singleton inputs input ih =>
      rw [progress_snoc]
      exact ih.step input

/-- The report on an input that is short enough can be written. -/
theorem report_of_mem {failure : Input × ParseError}
    (hsize : ∀ input ∈ inputs, input.text.utf8ByteSize < 2 ^ 32 - 1)
    (h : failure ∈ failures options mode inputs) :
    report? failure =
      some ((failure.2.toDiagnostic failure.1.name).rendered (LineMap.ofText failure.1.text)) := by
  obtain ⟨input, hinput, hfailure⟩ := List.mem_filterMap.1 h
  cases hrender : render options mode input.text with
  | ok text =>
      rw [hrender] at hfailure
      cases hfailure
  | error e =>
      rw [hrender] at hfailure
      cases hfailure
      have hshort := hsize input hinput
      have hstart := start_le_of_render (by omega) hrender
      have hfits : ((LineMap.ofText input.text).locate e.span.start).fits = true :=
        LineMap.fits_locate (by omega) (by omega)
      exact if_pos hfits

theorem closing_eq (n : Nat) : closing n = if n = 0 then "" else summary n := by
  unfold closing summary
  split
  · rfl
  · split
    · next h =>
      subst h
      rfl
    · rw [show " errors.\n" = " error" ++ "s." ++ "\n" from rfl]
      simp only [String.append_assoc]
      rfl

theorem process_eq (inputs : List Input) :
    process options mode inputs =
      { exitCode := if failures options mode inputs = [] then 0 else 2
        stdout := String.join (outputs options mode inputs)
        stderr := String.join
            ((failures options mode inputs).map fun failure => reportLine failure.1 failure.2) ++
          closing (failures options mode inputs).length } := by
  have h : (progress options mode inputs).Covers options mode inputs := progress_covers inputs
  rw [process, Progress.finish, h.stdout, h.stderr, DiagnosticLog.hasErrors,
    DiagnosticLog.errorCount, h.log, List.isEmpty_map, List.length_map, closing_eq]
  cases failures options mode inputs with
  | nil => rfl
  | cons failure rest => rfl

/-- **A run over inputs that have been read** leaves behind what it should. -/
theorem process_reported (hsize : ∀ input ∈ inputs, input.text.utf8ByteSize < 2 ^ 32 - 1) :
    Reported options mode inputs (process options mode inputs) := by
  rw [process_eq]
  refine ⟨rfl, ⟨(failures options mode inputs).map fun failure =>
    (failure.2.toDiagnostic failure.1.name).rendered (LineMap.ofText failure.1.text), ?_, ?_⟩, rfl⟩
  · rw [List.map_map]
    apply List.map_congr_left
    intro failure hfailure
    exact report_of_mem hsize hfailure
  · rw [List.map_map]
    rfl

/-- Working on more inputs adds to what is written and never lowers the exit code. -/
theorem process_append :
    (process options mode (inputs ++ inputs')).stdout =
        (process options mode inputs).stdout ++ (process options mode inputs').stdout ∧
      (process options mode (inputs ++ inputs')).exitCode =
        max (process options mode inputs).exitCode (process options mode inputs').exitCode := by
  rw [process_eq, process_eq, process_eq, outputs_append, failures_append]
  constructor
  · exact String.join_append
  · cases failures options mode inputs <;> cases failures options mode inputs' <;> rfl

/-! ## Reading the files -/

theorem readFiles_of_error {name : String} {fault : ReadFault}
    (h : reader.file name = .error fault) (names : List String) :
    readFiles reader (name :: names) = .error s!"cannot read {name}: {fault.message}" := by
  rw [readFiles, h]
  rfl

theorem readFiles_of_ok {name text : String} (h : reader.file name = .ok text)
    (names : List String) :
    readFiles reader (name :: names) =
      Except.map (⟨name, text⟩ :: ·) (readFiles reader names) := by
  rw [readFiles, h]
  rfl

/-- **All files can be read, or there is a first one that cannot be.** -/
theorem readFiles_cases (reader : SourceReader Id) (names : List String) :
    (∃ inputs, AreRead reader names inputs) ∨
    ∃ before name after fault, names = before ++ name :: after ∧
      (∀ n ∈ before, reader.Readable n) ∧ reader.file name = .error fault ∧
      readFiles reader names = .error s!"cannot read {name}: {fault.message}" := by
  induction names with
  | nil => exact .inl ⟨[], .nil⟩
  | cons name names ih =>
      cases hfile : reader.file name with
      | error fault =>
          exact .inr ⟨[], name, names, fault, rfl, by simp, hfile, readFiles_of_error hfile names⟩
      | ok text =>
          rcases ih with ⟨inputs, hread⟩ | ⟨before, bad, after, fault, rfl, hbefore, hbad, hfailed⟩
          · exact .inl ⟨⟨name, text⟩ :: inputs, .cons ⟨rfl, hfile⟩ hread⟩
          · refine .inr ⟨name :: before, bad, after, fault, rfl, ?_, hbad, ?_⟩
            · intro n hn
              rcases List.mem_cons.1 hn with rfl | hn
              · exact ⟨text, hfile⟩
              · exact hbefore n hn
            · rw [readFiles_of_ok hfile, hfailed]
              rfl

namespace AreRead

theorem readFiles_eq (h : AreRead reader names inputs) : readFiles reader names = .ok inputs := by
  induction h with
  | nil => rfl
  | @cons name input names inputs hfile _ ih =>
      obtain ⟨rfl, hfile⟩ := hfile
      rw [readFiles_of_ok hfile, ih]
      rfl

theorem readable (h : AreRead reader names inputs) : ∀ name ∈ names, reader.Readable name := by
  induction h with
  | nil => simp
  | cons hfile _ ih =>
      intro name hname
      rcases List.mem_cons.1 hname with rfl | hname
      · exact ⟨_, hfile.2⟩
      · exact ih name hname

theorem short {bound : Nat} (h : AreRead reader names inputs)
    (hsize : ∀ name ∈ names, ∀ text, reader.file name = .ok text → text.utf8ByteSize < bound) :
    ∀ input ∈ inputs, input.text.utf8ByteSize < bound := by
  induction h with
  | nil => simp
  | cons hfile _ ih =>
      obtain ⟨hfirst, hsize⟩ := List.forall_mem_cons.1 hsize
      intro input hinput
      rcases List.mem_cons.1 hinput with rfl | hinput
      · exact hfirst _ hfile.2
      · exact ih hsize input hinput

end AreRead

theorem exists_areRead (h : ∀ name ∈ names, reader.Readable name) :
    ∃ inputs, AreRead reader names inputs := by
  rcases readFiles_cases reader names with hread | ⟨before, name, after, fault, rfl, -, hbad, -⟩
  · exact hread
  · obtain ⟨text, htext⟩ := h name (by simp)
    cases hbad.symm.trans htext

/-! ## Runs -/

section Runs

variable {o : Options} {config : Config} {files : List String}

theorem runOn_of_error {message : String} (hconfig : readConfig reader o = .ok config)
    (hfiles : files ≠ []) (h : readFiles reader files = .error message) :
    runOn reader o files = failure message := by
  have hsame : readConfig reader { o with files := files } = .ok config := hconfig
  simp only [runOn, run, hsame, List.isEmpty_eq_false_iff.2 hfiles, h]
  rfl

theorem runOn_of_areRead (hconfig : readConfig reader o = .ok config) (hfiles : files ≠ [])
    (h : AreRead reader files inputs) :
    runOn reader o files = process (parserOptions o config) (outputMode o config) inputs := by
  have hsame : readConfig reader { o with files := files } = .ok config := hconfig
  simp only [runOn, run, hsame, List.isEmpty_eq_false_iff.2 hfiles, h.readFiles_eq]
  rfl

theorem failure_unreadable (name : String) (fault : ReadFault) :
    failure s!"cannot read {name}: {fault.message}" =
      ⟨1, "", "error: cannot read " ++ name ++ ": " ++ fault.message ++ "\n"⟩ := by
  show Outcome.mk 1 "" ("error: " ++ ("cannot read " ++ name ++ ": " ++ fault.message) ++ "\n") =
    ⟨1, "", ("error: " ++ "cannot read ") ++ name ++ ": " ++ fault.message ++ "\n"⟩
  simp only [String.append_assoc]

/-- The first file that cannot be read is all that a run speaks of. -/
theorem runOn_of_unreadable (hconfig : readConfig reader o = .ok config)
    (h : ∃ name ∈ files, ¬ reader.Readable name) :
    ∃ before name after fault, files = before ++ name :: after ∧
      (∀ n ∈ before, reader.Readable n) ∧ reader.file name = .error fault ∧
      runOn reader o files =
        ⟨1, "", "error: cannot read " ++ name ++ ": " ++ fault.message ++ "\n"⟩ := by
  rcases readFiles_cases reader files with
    ⟨inputs, hread⟩ | ⟨before, name, after, fault, hsplit, hbefore, hbad, hfailed⟩
  · obtain ⟨name, hname, hnot⟩ := h
    exact absurd (hread.readable name hname) hnot
  · refine ⟨before, name, after, fault, hsplit, hbefore, hbad, ?_⟩
    have hfiles : files ≠ [] := by simp [hsplit]
    rw [runOn_of_error hconfig hfiles hfailed]
    exact failure_unreadable name fault

theorem runOn_append {a b : List String} (hconfig : readConfig reader o = .ok config)
    (ha : a ≠ []) (hb : b ≠ []) (hreadable : ∀ name ∈ a ++ b, reader.Readable name) :
    (runOn reader o (a ++ b)).stdout = (runOn reader o a).stdout ++ (runOn reader o b).stdout ∧
      (runOn reader o (a ++ b)).exitCode =
        max (runOn reader o a).exitCode (runOn reader o b).exitCode := by
  obtain ⟨first, hfirst⟩ := exists_areRead fun name h => hreadable name (List.mem_append_left b h)
  obtain ⟨second, hsecond⟩ :=
    exists_areRead fun name h => hreadable name (List.mem_append_right a h)
  have hboth : AreRead reader (a ++ b) (first ++ second) := List.rel_append hfirst hsecond
  have hne : a ++ b ≠ [] := List.append_ne_nil_of_left_ne_nil ha b
  rw [runOn_of_areRead hconfig ha hfirst, runOn_of_areRead hconfig hb hsecond,
    runOn_of_areRead hconfig hne hboth]
  exact process_append

/-- **Runs compose file by file.** With a configuration that has been read:
a run that meets a file it cannot read writes nothing and speaks of the first such file only;
a run over files that can be read writes the outputs of those that have no error, and reports and
counts the others, all in the order of the files; and what a run over `a ++ b` writes is what the
runs over `a` and over `b` write. -/
theorem run_over_files (hconfig : readConfig reader o = .ok config) :
    (∀ files : List String, (∃ name ∈ files, ¬ reader.Readable name) →
      ∃ before name after fault, files = before ++ name :: after ∧
        (∀ n ∈ before, reader.Readable n) ∧ reader.file name = .error fault ∧
        runOn reader o files =
          ⟨1, "", "error: cannot read " ++ name ++ ": " ++ fault.message ++ "\n"⟩) ∧
    (∀ files : List String, files ≠ [] → (∀ name ∈ files, reader.Readable name) →
      (∀ name ∈ files, ∀ text, reader.file name = .ok text → text.utf8ByteSize < 2 ^ 32 - 1) →
      ∃ inputs, AreRead reader files inputs ∧
        Reported (parserOptions o config) (outputMode o config) inputs (runOn reader o files)) ∧
    ∀ a b : List String, a ≠ [] → b ≠ [] → (∀ name ∈ a ++ b, reader.Readable name) →
      (runOn reader o (a ++ b)).stdout = (runOn reader o a).stdout ++ (runOn reader o b).stdout ∧
        (runOn reader o (a ++ b)).exitCode =
          max (runOn reader o a).exitCode (runOn reader o b).exitCode := by
  refine ⟨fun files h => runOn_of_unreadable hconfig h, ?_,
    fun a b => runOn_append hconfig⟩
  intro files hfiles hreadable hsize
  obtain ⟨inputs, hread⟩ := exists_areRead hreadable
  refine ⟨inputs, hread, ?_⟩
  rw [runOn_of_areRead hconfig hfiles hread]
  exact process_reported (hread.short hsize)

end Runs

def twoFiles : SourceReader Id where
  file name :=
    if name = "good" then .ok "x;"
    else if name = "bad" then .ok "é"
    else .error .notFound
  standardInput := .ok ""

theorem twoFiles_readable : ∀ name ∈ ["good", "bad"], twoFiles.Readable name := by
  simp [SourceReader.Readable, twoFiles]

/-- Both files, and then a file that is missing between them. -/
theorem run_over_two_files :
    (∃ inputs, AreRead twoFiles ["good", "bad"] inputs ∧
      Reported {} (.json true) inputs (runOn twoFiles {} ["good", "bad"])) ∧
    (∃ before name after fault, ["good", "missing", "bad"] = before ++ name :: after ∧
      (∀ n ∈ before, twoFiles.Readable n) ∧ twoFiles.file name = .error fault ∧
      runOn twoFiles {} ["good", "missing", "bad"] =
        ⟨1, "", "error: cannot read " ++ name ++ ": " ++ fault.message ++ "\n"⟩) ∧
    (runOn twoFiles {} ["good", "bad"]).exitCode =
      max (runOn twoFiles {} ["good"]).exitCode (runOn twoFiles {} ["bad"]).exitCode := by
  have hconfig : readConfig twoFiles {} = .ok {} := rfl
  obtain ⟨hmissing, hreported, happend⟩ := run_over_files hconfig
  refine ⟨hreported _ (by simp) twoFiles_readable ?_, hmissing _ ⟨"missing", by simp, ?_⟩,
    (happend ["good"] ["bad"] (by simp) (by simp) twoFiles_readable).2⟩
  · simp only [twoFiles, List.forall_mem_cons]
    exact ⟨by rintro _ ⟨⟩; decide, by rintro _ ⟨⟩; decide, by simp⟩
  · simp [SourceReader.Readable, twoFiles]

end Cli
end LetterLang

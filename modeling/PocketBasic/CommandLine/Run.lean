import PocketBasic.CommandLine.Arguments
import PocketBasic.CommandLine.Manual
import PocketBasic.Compilation
import PocketBasic.Text.Escapes

/-!
# Running the command

The command compiles one file, or prints its tokens.  Its outcome is an exit status
and what it printed: results go to the standard output, diagnostics and the log of
a verbose run to the standard error.  Whatever is printed for a person has terminal
escapes removed; the log is written as it is.

The status says what happened: 0 if the work is done, 1 if the program is wrong, 2
if the arguments are wrong or a file cannot be read or written, and 3 for a failure
that is none of these.
-/

namespace PocketBasic
namespace CommandLine

/-- What a run of the command leaves: its exit status and what it printed. -/
structure Outcome where
  status : Nat
  output : String
  errors : String
  deriving DecidableEq, Repr

/-- What a run can fail with: a diagnostic, or a failure of the command itself. -/
inductive Failure where
  | diagnosed (d : Diagnostic)
  | unforeseen (text : String)
  deriving DecidableEq, Repr

/-- A text as a line that is printed for a person. -/
def printed (text : String) : String :=
  String.ofList (Text.removeEscapes text.toList) ++ "\n"

/-- Several texts as lines that are printed for a person. -/
def printedLines (texts : List String) : String := String.join (texts.map printed)

/-- The exit status for a cause. -/
def exitStatus (c : Cause) : Nat := if c.family = some .access then 2 else 1

/-- What is left of a run that has failed.  A verbose run shows the trace of an
unforeseen failure, and says so if there is none. -/
def report (verbose : Bool) : Failure → Outcome
  | .diagnosed d => ⟨exitStatus d.cause, "", printed d.message⟩
  | .unforeseen text =>
    ⟨3, "", printed ("Internal error: " ++ text) ++ if verbose then "NoneType: None\n" else ""⟩

/-- What is left of a run whose arguments are wrong. -/
def refuse (e : UsageError) : Outcome :=
  ⟨2, "", (if e.showsUsage then printed usageText else "") ++ printed ("Error: " ++ e.description)⟩

/-- What a run is to do. -/
structure Job where
  file : String
  output : Option String
  tokens : Bool
  verbose : Bool
  deriving DecidableEq, Repr

/-- A list of names for a person. -/
def nameList (names : List String) : String :=
  if names = [] then "(none)" else String.intercalate ", " names

variable {m : Type → Type} [Monad m]

/-- The first option of those given whose path is a directory. -/
def findDirectory (disk : Disk m) (a : Arguments) : List Switch → m (Option UsageError)
  | [] => pure none
  | s :: later =>
    match a.value? s with
    | none => findDirectory disk a later
    | some path => do
      if s.takesValue && (← disk.isDirectory path) then pure (some (.directory s path))
      else findDirectory disk a later

/-- The job that the arguments describe. -/
def jobOf (disk : Disk m) (a : Arguments) : m (Except UsageError Job) := do
  match ← findDirectory disk a a.mentioned with
  | some e => pure (.error e)
  | none =>
    match a.value? .file with
    | none => pure (.error .fileMissing)
    | some file =>
      if a.operands ≠ [] then pure (.error (.extraOperands a.operands))
      else pure (.ok ⟨file, a.value? .output, a.has .tokens, a.has .verbose⟩)

/-- Prints the tokens of a file, one on a line. -/
def printTokens (disk : Disk m) (path : Path) : m Outcome :=
  match checkExtension path sourceExtension with
  | .error d => pure (report false (.diagnosed d))
  | .ok () => do
    match ← readSource disk path with
    | .error d => pure (report false (.diagnosed d))
    | .ok text =>
      let read := (Source.ofString (toString path) text).tokenize
      let dump := printedLines (read.tokens.map Token.dump)
      match read.failure with
      | some d => pure { report false (.diagnosed d) with output := dump }
      | none => pure ⟨0, dump, ""⟩

/-- The lines that a verbose run prints about a result. -/
def summary (c : Compiled) (output : Path) : List String :=
  ["Tokenized: " ++ toString c.tokenCount ++ " tokens",
   "Variables: " ++ nameList c.variableNames,
   "Labels: " ++ nameList c.labels,
   "Wrote " ++ toString c.code.length ++ " bytes to " ++ toString output]

/-- Compiles a file and says what was done. -/
def compileJob (disk : Disk m) (job : Job) : m Outcome := do
  let path := Path.ofString job.file
  let output := Path.ofString (job.output.getD defaultOutput)
  let compilation ← compileFile disk { output := job.output.getD defaultOutput } path
  let opening := if job.verbose then ["Compiling " ++ toString path ++ "..."] else []
  let log :=
    if job.verbose then String.join (compilation.events.map fun e => e.logLine ++ "\n") else ""
  match compilation.result with
  | .error d =>
    let failed := report job.verbose (.diagnosed d)
    pure { failed with output := printedLines opening, errors := log ++ failed.errors }
  | .ok compiled =>
    let details := if job.verbose then summary compiled output else []
    let closing := ["Compiling complete: " ++ toString path ++ " -> " ++ toString output]
    pure ⟨0, printedLines (opening ++ details ++ closing), log⟩

/-- Does a job. -/
def perform (disk : Disk m) (job : Job) : m Outcome :=
  if job.tokens then printTokens disk (.ofString job.file) else compileJob disk job

/-- Runs the command with its arguments. -/
def run (disk : Disk m) (arguments : List String) : m Outcome :=
  match Arguments.read arguments with
  | .error e => pure (refuse e)
  | .ok a =>
    match a.immediate? with
    | some .version => pure ⟨0, printed versionText, ""⟩
    | some _ => pure ⟨0, printed helpText, ""⟩
    | none => do
      match ← jobOf disk a with
      | .error e => pure (refuse e)
      | .ok job => perform disk job

end CommandLine
end PocketBasic

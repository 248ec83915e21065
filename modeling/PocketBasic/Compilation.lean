import PocketBasic.Output
import PocketBasic.Translation

/-!
# Compiling

To compile a text is to translate it from its start into an empty listing.  To
compile a file is to check its name, to read it, to compile its text and to store
the listing; the first of these that fails decides the diagnostic, and no file is
touched unless all that comes before has succeeded.

A compilation also reports what it does, as a list of events.  The events up to a
failure are kept.
-/

namespace PocketBasic

/-- What comes of compiling a program. -/
structure Compiled where
  filename : String
  /-- The C text. -/
  code : String
  /-- How many tokens were read, not counting the end of the input. -/
  tokenCount : Nat
  /-- The variables, in the order of their characters. -/
  variableNames : List String
  /-- The labels, in the order of their declarations. -/
  labels : List String
  /-- Where the C text was stored, if it was. -/
  outputPath : Option Path
  deriving DecidableEq, Repr

/-- What a compilation reports. -/
inductive Event where
  | compiling (filename : String)
  | declared (d : Declaration)
  | compiled (filename : String) (tokenCount variableCount labelCount : Nat)
  | wroteBytes (count : Nat) (path : String)
  | wrote (path : String)
  deriving DecidableEq, Repr

namespace Event

/-- Whether an event is of interest only to who looks for a mistake in detail. -/
def isDetail : Event → Bool
  | declared _ | wroteBytes _ _ => true
  | _ => false

/-- The wording of an event. -/
def text : Event → String
  | compiling filename => "Compiling " ++ filename
  | declared (.ofVariable name) => "Declared variable '" ++ name ++ "'"
  | declared (.ofLabel name place) => "Declared label '" ++ name ++ "' at " ++ toString place
  | compiled filename tokenCount variableCount labelCount =>
    "Compiled " ++ filename ++ ": " ++ toString tokenCount ++ " tokens, " ++ toString variableCount
      ++ " variables, " ++ toString labelCount ++ " labels"
  | wroteBytes count path => "Wrote " ++ toString count ++ " bytes to " ++ path
  | wrote path => "Wrote " ++ path

/-- An event as a line of a log. -/
def logLine (e : Event) : String :=
  (if e.isDetail then "DEBUG: " else "INFO: ") ++ e.text

end Event

/-- A compilation: what it reported and what came of it. -/
structure Compilation (α : Type) where
  events : List Event
  result : Except Diagnostic α

/-- The extension of source files. -/
def sourceExtension : String := ".tt"

/-- The path that the C text is written to if no other is chosen. -/
def defaultOutput : String := "out.c"

/-- How files are compiled. -/
structure CompileOptions where
  /-- The path that the C text is written to; without one it cannot be stored. -/
  output : Option String := some defaultOutput
  /-- The extension that a source file must have. -/
  extension : String := sourceExtension
  deriving DecidableEq, Repr

namespace Compiled

/-- The result of a translation that is complete. -/
def ofTranslation (filename : String) (t : Translation) : Compiled where
  filename := filename
  code := t.listing.render
  tokenCount := t.source.produced
  variableNames := t.names.sortedVariables
  labels := t.names.labels.map Prod.fst
  outputPath := none

/-- The event that reports a result. -/
def event (c : Compiled) : Event :=
  .compiled c.filename c.tokenCount c.variableNames.length c.labels.length

end Compiled

/-- Translates a text from its start, with the events of doing so. -/
def translateText (filename text : String) : Compilation Translation :=
  match Translator.start (.ofString filename text) with
  | (.error d, _) => ⟨[.compiling filename], .error d⟩
  | (.ok translator, source) =>
    match Translation.translate translator source .empty with
    | (some d, t) => ⟨.compiling filename :: t.names.declared.map .declared, .error d⟩
    | (none, t) =>
      ⟨.compiling filename :: t.names.declared.map .declared
          ++ [(Compiled.ofTranslation filename t).event], .ok t⟩

/-- Compiles a text. -/
def compile (filename text : String) : Except Diagnostic Compiled :=
  (translateText filename text).result.map (.ofTranslation filename)

/-- Refuses a path whose name does not end in the extension of source files. -/
def checkExtension (path : Path) (extension : String) : Except Diagnostic Unit :=
  if path.suffix = extension then .ok ()
  else .error (.ofAccess (.wrongExtension (toString path) extension))

/-- The text that the bytes of a source file stand for. -/
def sourceText (bytes : List UInt8) : String :=
  String.ofList (Text.unifyLineEnds (Text.decodeBytes bytes))

variable {m : Type → Type} [Monad m]

/-- Reads the text of a source file. -/
def readSource (disk : Disk m) (path : Path) : m (Except Diagnostic String) := do
  match ← disk.read path with
  | .error refusal => pure (.error (.ofAccess (.unreadable (toString path) refusal.reason)))
  | .ok bytes => pure (.ok (sourceText bytes))

/-- Stores the listing of a translation, the last step of compiling a file. -/
def storeTranslation (disk : Disk m) (output : Option Path) (filename : String)
    (t : Translation) : m (Compilation Compiled) := do
  let o : Output := { path := output, listing := t.listing, stored := false }
  match ← o.store disk with
  | (.error d, _) => pure ⟨[], .error d⟩
  | (.ok text, o) =>
    pure ⟨[.wroteBytes text.length o.pathText, .wrote o.pathText],
      .ok { Compiled.ofTranslation filename t with outputPath := output }⟩

/-- Compiles the file at a path and stores the C text. -/
def compileFile (disk : Disk m) (options : CompileOptions) (path : Path) :
    m (Compilation Compiled) :=
  match checkExtension path options.extension with
  | .error d => pure ⟨[], .error d⟩
  | .ok () => do
    match ← readSource disk path with
    | .error d => pure ⟨[], .error d⟩
    | .ok text =>
      let translated := translateText (toString path) text
      match translated.result with
      | .error d => pure ⟨translated.events, .error d⟩
      | .ok t =>
        let stored ← storeTranslation disk (options.output.map .ofString) (toString path) t
        pure ⟨translated.events ++ stored.events, stored.result⟩

end PocketBasic

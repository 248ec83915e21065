import PocketBasic.CommandLine.Run
import PocketBasic.Session.Registry

/-!
# Sessions

The parts of the compiler can be used one by one: a source can be read token by
token, an output can be written to by hand, and a translator can be set to work on
a source and an output that others use as well.  A session is such a use.  It holds
the sources, outputs, translators and compilers that were created in it and a tree
of files, and answers one request after the other.

`Session.step` is the whole of it.  A request that fails creates nothing, but what
it has done to the things it worked on stays: a source that was read is behind what
was read, and a translation that failed leaves its names and its part of the
listing.  A translator that is asked again starts another program where the last
one stopped.
-/

namespace PocketBasic

/-- A translator with the numbers of the source that it reads and the output that it
writes to. -/
structure BoundTranslator where
  translator : Translator
  source : Nat
  output : Nat
  deriving DecidableEq, Repr

/-- The state of a session. -/
structure Session where
  files : FileTree
  sources : Registry Source
  outputs : Registry Output
  translators : Registry BoundTranslator
  compilers : Registry CompileOptions
  deriving Repr

/-- What can be asked of a session.  Things are named, and a request that creates
one comes with its name first. -/
inductive Request where
  | openSource (name text filename : String)
  | nextToken (source : String)
  | remainingTokens (source : String)
  | position (source : String)
  | openOutput (name : String) (path : Option String)
  | emit (output text : String)
  | emitLine (output text : String)
  | headerLine (output text : String)
  | render (output : String)
  | store (output : String)
  | openTranslator (name source output : String)
  | translate (translator : String)
  | openCompiler (name : String) (options : CompileOptions)
  | compileText (compiler text filename : String)
  | compileFile (compiler path : String)
  | compileFileTo (path : String) (output : Option String)
  | readSource (path : String)
  | putFile (path : String) (bytes : List UInt8)
  | makeDirectory (path : String)
  | getFile (path : String)
  | listFiles
  | command (arguments : List String)
  deriving DecidableEq, Repr

/-- What a translator and the things it works on look like. -/
structure TranslatorView where
  translator : Translator
  tokenCount : Nat
  listing : Listing
  deriving DecidableEq, Repr

/-- The answers of a session. -/
inductive Answer where
  /-- A source, just created. -/
  | source (s : Source)
  /-- A token, with the source behind it. -/
  | token (t : Token) (s : Source)
  | tokens (t : Source.Tokens)
  | position (s : Source)
  /-- An output, just created. -/
  | output (o : Output)
  | listing (l : Listing)
  | text (text : String)
  /-- A translator, just created. -/
  | translator (view : TranslatorView)
  /-- The end of a translation, with the diagnostic if it failed. -/
  | translated (failure : Option Diagnostic) (view : TranslatorView)
  /-- A compiler, just created. -/
  | compiler (options : CompileOptions)
  | compiled (c : Compiled)
  | code (code : String)
  | done
  | bytes (bytes : List UInt8)
  | names (names : List String)
  | outcome (o : CommandLine.Outcome)
  | failed (d : Diagnostic)
  /-- A file operation was refused by the system. -/
  | refused (refusal : Refusal)
  /-- A name that stands for nothing. -/
  | unknownName (name : String)
  deriving DecidableEq, Repr

namespace Session

/-- A session before the first request. -/
def start : Session := ⟨.empty, .empty, .empty, .empty, .empty⟩

/-! ## Sources -/

/-- Asks a source for its next token. -/
def nextToken (s : Session) (i : Nat) (source : Source) : Answer × Session :=
  match source.next with
  | (.ok t, behind) => (.token t behind, { s with sources := s.sources.set i behind })
  | (.error d, behind) => (.failed d, { s with sources := s.sources.set i behind })

/-- Asks a source for all tokens that it still holds. -/
def remainingTokens (s : Session) (i : Nat) (source : Source) : Answer × Session :=
  (.tokens source.tokenize, { s with sources := s.sources.set i source.tokenize.source })

/-! ## Outputs -/

/-- Changes the listing of an output. -/
def modifyListing (s : Session) (i : Nat) (o : Output) (change : Listing → Listing) :
    Answer × Session :=
  (.listing (change o.listing),
    { s with outputs := s.outputs.set i { o with listing := change o.listing } })

/-- Stores an output in the files of the session. -/
def store (s : Session) (i : Nat) (o : Output) : Answer × Session :=
  match (o.store FileTree.disk).run s.files with
  | ((.ok text, o), files) =>
    (.text text, { s with files := files, outputs := s.outputs.set i o })
  | ((.error d, o), files) =>
    (.failed d, { s with files := files, outputs := s.outputs.set i o })

/-! ## Translators -/

/-- Creates a translator for a source and an output. -/
def openTranslator (s : Session) (name : String) (i : Nat) (source : Source) (j : Nat)
    (output : Output) : Answer × Session :=
  match Translator.start source with
  | (.error d, behind) => (.failed d, { s with sources := s.sources.set i behind })
  | (.ok t, behind) =>
    (.translator ⟨t, behind.produced, output.listing⟩,
      { s with
        sources := s.sources.set i behind
        translators := s.translators.add name ⟨t, i, j⟩ })

/-- Sets a translator to work. -/
def translate (s : Session) (k : Nat) (bound : BoundTranslator) (source : Source)
    (output : Output) : Answer × Session :=
  let (failure, t) := Translation.translate bound.translator source output.listing
  (.translated failure ⟨t.toTranslator, t.source.produced, t.listing⟩,
    { s with
      sources := s.sources.set bound.source t.source
      outputs := s.outputs.set bound.output { output with listing := t.listing }
      translators := s.translators.set k { bound with translator := t.toTranslator } })

/-! ## Compilers and files -/

/-- Compiles a file of the session. -/
def compileFile (s : Session) (options : CompileOptions) (path : String) :
    Except Diagnostic Compiled × Session :=
  let (compilation, files) :=
    (PocketBasic.compileFile FileTree.disk options (.ofString path)).run s.files
  (compilation.result, { s with files := files })

/-- Writes a file of the session. -/
def putFile (s : Session) (path : String) (bytes : List UInt8) : Answer × Session :=
  match s.files.write path bytes with
  | .ok files => (.done, { s with files := files })
  | .error refusal => (.refused refusal, s)

/-- Makes a directory of the session, with those that it stands in. -/
def makeDirectory (s : Session) (path : String) : Answer × Session :=
  match s.files.makeDirectories path with
  | (none, files) => (.done, { s with files := files })
  | (some refusal, files) => (.refused refusal, { s with files := files })

/-- Runs the command in the directory of the session. -/
def command (s : Session) (arguments : List String) : Answer × Session :=
  let (outcome, files) := (CommandLine.run FileTree.disk arguments).run s.files
  (.outcome outcome, { s with files := files })

/-- The answer that a result gives rise to. -/
def answerOf {α : Type} (toAnswer : α → Answer) : Except Diagnostic α → Answer
  | .ok a => toAnswer a
  | .error d => .failed d

/-- Does something with the thing of a name, if there is one. -/
def withNamed {α : Type} (s : Session) (r : Registry α) (name : String)
    (act : Nat → α → Answer × Session) : Answer × Session :=
  match r.find? name with
  | some (i, a) => act i a
  | none => (.unknownName name, s)

/-- Does something with a translator and the things that it works on. -/
def withTranslator (s : Session) (name : String)
    (act : Nat → BoundTranslator → Source → Output → Answer × Session) : Answer × Session :=
  s.withNamed s.translators name fun k bound =>
    match s.sources.get? bound.source, s.outputs.get? bound.output with
    | some source, some output => act k bound source output
    | _, _ => (.unknownName name, s)

/-- Answers one request. -/
def step (s : Session) : Request → Answer × Session
  | .openSource name text filename =>
    let source := Source.ofString filename text
    (.source source, { s with sources := s.sources.add name source })
  | .nextToken name => s.withNamed s.sources name s.nextToken
  | .remainingTokens name => s.withNamed s.sources name s.remainingTokens
  | .position name => s.withNamed s.sources name fun _ source => (.position source, s)
  | .openOutput name path =>
    let output := Output.empty (path.map .ofString)
    (.output output, { s with outputs := s.outputs.add name output })
  | .emit name text =>
    s.withNamed s.outputs name fun i o => s.modifyListing i o (·.emit text)
  | .emitLine name text =>
    s.withNamed s.outputs name fun i o => s.modifyListing i o (·.emitLine text)
  | .headerLine name text =>
    s.withNamed s.outputs name fun i o => s.modifyListing i o (·.headerLine text)
  | .render name => s.withNamed s.outputs name fun _ o => (.text o.listing.render, s)
  | .store name => s.withNamed s.outputs name s.store
  | .openTranslator name source output =>
    s.withNamed s.sources source fun i source =>
      s.withNamed s.outputs output fun j output => s.openTranslator name i source j output
  | .translate name => s.withTranslator name s.translate
  | .openCompiler name options =>
    (.compiler options, { s with compilers := s.compilers.add name options })
  | .compileText name text filename =>
    s.withNamed s.compilers name fun _ _ => (answerOf .compiled (compile filename text), s)
  | .compileFile name path =>
    s.withNamed s.compilers name fun _ options =>
      let (result, s) := s.compileFile options path
      (answerOf .compiled result, s)
  | .compileFileTo path output =>
    let (result, s) := s.compileFile { output := output } path
    (answerOf (fun c => .code c.code) result, s)
  | .readSource path =>
    (answerOf .text ((PocketBasic.readSource FileTree.disk (.ofString path)).run s.files).1, s)
  | .putFile path bytes => s.putFile path bytes
  | .makeDirectory path => s.makeDirectory path
  | .getFile path =>
    match s.files.read path with
    | .ok bytes => (.bytes bytes, s)
    | .error refusal => (.refused refusal, s)
  | .listFiles => (.names s.files.listing, s)
  | .command arguments => s.command arguments

/-- Answers one request after the other. -/
def run (s : Session) : List Request → List Answer
  | [] => []
  | request :: later =>
    let (answer, s) := s.step request
    answer :: s.run later

end Session
end PocketBasic

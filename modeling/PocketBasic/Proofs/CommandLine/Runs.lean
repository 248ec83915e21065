import PocketBasic.Proofs.CommandLine.Jobs
import PocketBasic.Proofs.CommandLine.TokenLines
import PocketBasic.Proofs.Files.Compiling
import PocketBasic.Proofs.Translation.Filenames

/-!
# Runs of the command

The work of a job is done or it ends with a diagnostic (`Job.failure?`), and this decides the exit
status and what a run that is not verbose prints on the standard error.  A diagnostic is about the
program or about the access to a file, because those of a text are lexical, grammatical or about
names (`isProgramFault_of_compile`); so there is no other failure, and the status is never that of
an unforeseen one.

A verbose run does the same work and prints more before what it prints anyway.

Main statement: what a run with valid arguments leaves, and what a `-v` more changes
(`run_classified`).
-/

namespace PocketBasic

/-! ## Families of causes -/

/-- A cause that lies in the program: its characters, its tokens or its names. -/
def Cause.IsProgramFault (c : Cause) : Prop :=
  c.family = some .lexical ∨ c.family = some .grammar ∨ c.family = some .naming

theorem Cause.IsProgramFault.family_ne {c : Cause} (h : c.IsProgramFault) :
    c.family ≠ some .access := by
  rcases h with h | h | h
  all_goals
    rw [h]
    decide

/-- What shows in a text is a fault of the program. -/
theorem Shows.isProgramFault {s : Source} {place : Location} {head rest : List Char} {c : Cause}
    (h : Shows s place head rest c) : c.IsProgramFault := by
  cases h with
  | undeclaredVariable | duplicateLabel | undeclaredLabel => exact .inr (.inr rfl)
  | token | newline | endOfInput => exact .inr (.inl rfl)
  | _ => exact .inl rfl

/-- A text that is refused is refused for a fault of the program. -/
theorem isProgramFault_of_compile {filename text : String} {d : Diagnostic}
    (h : compile filename text = .error d) : d.cause.IsProgramFault := by
  obtain ⟨before, behind, hpoints⟩ := exists_pointsBetween h
  exact hpoints.shows.isProgramFault

namespace CommandLine

variable {σ ι : Type} (F : FileSystem σ ι) (s : σ)

/-! ## What ends the work -/

namespace Job

/-- The path of the source. -/
def path (job : Job) : Path := .ofString job.file

/-- The path that the code is written to. -/
def outputPath (job : Job) : Path := .ofString (job.output.getD defaultOutput)

/-- How the file of a job is compiled. -/
def options (job : Job) : CompileOptions := { output := job.output.getD defaultOutput }

/-- The diagnostic that a result is, if it is one. -/
def failureOf : Except Diagnostic Compiled → Option Diagnostic
  | .error d => some d
  | .ok _ => none

/-- The diagnostic that ends the compilation of a job, if one does. -/
def compileFailure? (job : Job) : Option Diagnostic :=
  failureOf ((compileFile F.disk job.options job.path).run s).1.result

/-- The diagnostic that ends a dump of tokens, if one does. -/
def dumpFailure? (job : Job) : Option Diagnostic :=
  if job.path.suffix = sourceExtension then
    match F.read job.path s with
    | .error refusal => some (.ofAccess (.unreadable (toString job.path) refusal.reason))
    | .ok bytes => (Source.ofString (toString job.path) (sourceText bytes)).tokenize.failure
  else some (.ofAccess (.wrongExtension (toString job.path) sourceExtension))

/-- The diagnostic that ends the work of a job, if one does. -/
def failure? (job : Job) : Option Diagnostic :=
  if job.tokens then job.dumpFailure? F s else job.compileFailure? F s

end Job

/-- A job ends with a fault of the program or with one of access. -/
theorem family_of_failure {job : Job} {d : Diagnostic} (h : job.failure? F s = some d) :
    d.cause.IsProgramFault ∨ d.cause.family = some .access := by
  unfold Job.failure? at h
  split_ifs at h
  · unfold Job.dumpFailure? at h
    split_ifs at h
    · split at h
      · obtain rfl := Option.some.inj h
        exact .inr rfl
      · obtain ⟨fault, hfault⟩ := Source.cause_of_failure h
        rw [hfault]
        exact .inl (.inl rfl)
    · obtain rfl := Option.some.inj h
      exact .inr rfl
  · unfold Job.compileFailure? at h
    have hrun := compilesTo_run F job.options job.path s
    generalize ((compileFile F.disk job.options job.path).run s).1.result = result at h hrun
    generalize ((compileFile F.disk job.options job.path).run s).2 = s' at hrun
    cases hrun with
    | fault hsuffix hread hcompile =>
      obtain rfl := Option.some.inj h
      exact .inl (isProgramFault_of_compile hcompile)
    | written => cases h
    | wrongExtension | unreadable | noOutput | unwritable =>
      obtain rfl := Option.some.inj h
      exact .inr rfl

/-! ## What is left of a run -/

/-- The status of a run whose work has ended in this way. -/
def statusOf : Option Diagnostic → Nat
  | none => 0
  | some d => exitStatus d.cause

/-- What a run that is not verbose prints on the standard error. -/
def errorsOf : Option Diagnostic → String
  | none => ""
  | some d => printed d.message

/-- What a dump of tokens leaves. -/
theorem run_printTokens (job : Job) :
    ∃ output, (printTokens F.disk job.path).run s =
        (⟨statusOf (job.dumpFailure? F s), output, errorsOf (job.dumpFailure? F s)⟩, s) ∧
      ∀ bytes, job.path.suffix = sourceExtension → F.read job.path s = .ok bytes →
        output = printedLines
          ((Source.ofString (toString job.path) (sourceText bytes)).tokenize.tokens.map
            Token.dump) := by
  unfold printTokens checkExtension Job.dumpFailure?
  split_ifs with hsuffix
  · dsimp only
    rw [run_bind_of_run (run_readSource F job.path s)]
    cases hread : F.read job.path s with
    | error refusal => exact ⟨"", rfl, fun bytes _ hbytes => by cases hbytes⟩
    | ok bytes =>
      refine ⟨printedLines
        ((Source.ofString (toString job.path) (sourceText bytes)).tokenize.tokens.map Token.dump),
        ?_, ?_⟩
      · dsimp only
        cases (Source.ofString (toString job.path) (sourceText bytes)).tokenize.failure
        all_goals rfl
      · rintro _ - ⟨⟩
        rfl
  · exact ⟨"", rfl, fun _ hsuffix' => absurd hsuffix' hsuffix⟩

theorem printedLines_append (texts texts' : List String) :
    printedLines (texts ++ texts') = printedLines texts ++ printedLines texts' := by
  rw [printedLines, List.map_append, String.join_append]
  rfl

namespace Job

/-- What a verbose run prints before it compiles. -/
def opening (job : Job) : List String :=
  if job.verbose then ["Compiling " ++ toString job.path ++ "..."] else []

/-- What a verbose run prints about a result. -/
def details (job : Job) (c : Compiled) : List String :=
  if job.verbose then summary c job.outputPath else []

/-- What every run prints about a result. -/
def closing (job : Job) : List String :=
  ["Compiling complete: " ++ toString job.path ++ " -> " ++ toString job.outputPath]

/-- What a verbose run writes to its log. -/
def log (job : Job) (events : List Event) : String :=
  if job.verbose then String.join (events.map fun e => e.logLine ++ "\n") else ""

variable {job : Job} (h : job.verbose = false)

include h

theorem opening_of_quiet : job.opening = [] := by
  rw [opening, h]
  rfl

theorem details_of_quiet (c : Compiled) : job.details c = [] := by
  rw [details, h]
  rfl

theorem log_of_quiet (events : List Event) : job.log events = "" := by
  rw [log, h]
  rfl

end Job

/-- What a compilation leaves: the files as compiling left them, and an outcome to which a verbose
run adds its opening, its details and its log. -/
theorem run_compileJob_of_run (job : Job) {compilation : Compilation Compiled} {s' : σ}
    (h : (compileFile F.disk job.options job.path).run s = (compilation, s')) :
    (compileJob F.disk job).run s =
      ((match compilation.result with
        | .error d =>
          ⟨exitStatus d.cause, printedLines job.opening,
            job.log compilation.events ++ printed d.message⟩
        | .ok c =>
          ⟨0, printedLines (job.opening ++ job.details c ++ job.closing),
            job.log compilation.events⟩), s') := by
  obtain ⟨events, result⟩ := compilation
  have h' : (compileFile F.disk { output := job.output.getD defaultOutput }
      (Path.ofString job.file)).run s = (⟨events, result⟩, s') := h
  unfold compileJob
  dsimp only
  rw [run_bind_of_run h']
  cases result with
  | error d => rfl
  | ok c => rfl

/-- The last part of what a compilation prints does not depend on whether it is verbose, and
nothing is before it if it is not. -/
theorem run_compileJob (job : Job) :
    ∃ opening log, (compileJob F.disk job).run s =
        (⟨statusOf (job.compileFailure? F s),
          opening ++ (if job.compileFailure? F s = none then printedLines job.closing else ""),
          log ++ errorsOf (job.compileFailure? F s)⟩,
          ((compileFile F.disk job.options job.path).run s).2) ∧
      (job.verbose = false → opening = "" ∧ log = "") := by
  rw [Job.compileFailure?]
  cases hcompile : (compileFile F.disk job.options job.path).run s with
  | mk compilation s' =>
    rw [run_compileJob_of_run F s job hcompile]
    dsimp only
    cases compilation.result with
    | error d =>
      refine ⟨printedLines job.opening, job.log compilation.events, ?_, fun hquiet => ?_⟩
      · dsimp only
        rw [Job.failureOf, if_neg (Option.some_ne_none d), String.append_empty]
        rfl
      · rw [Job.opening_of_quiet hquiet, Job.log_of_quiet hquiet]
        exact ⟨rfl, rfl⟩
    | ok c =>
      refine ⟨printedLines (job.opening ++ job.details c), job.log compilation.events, ?_,
        fun hquiet => ?_⟩
      · dsimp only
        rw [Job.failureOf, if_pos rfl, printedLines_append, errorsOf, String.append_empty]
        rfl
      · rw [Job.opening_of_quiet hquiet, Job.details_of_quiet hquiet, Job.log_of_quiet hquiet]
        exact ⟨rfl, rfl⟩

/-- What doing a job leaves: the files and the last part of what it prints, which are the same for a
verbose job, and an opening and a log, which only a verbose compilation has. -/
theorem run_perform (job : Job) :
    ∃ closing s', (∀ verbose, ∃ opening log,
        (perform F.disk { job with verbose := verbose }).run s =
          (⟨statusOf (job.failure? F s), opening ++ closing, log ++ errorsOf (job.failure? F s)⟩,
            s') ∧
        (verbose = false ∨ job.tokens = true → opening = "" ∧ log = "")) ∧
      (job.tokens = true → s' = s ∧ ∀ bytes, job.path.suffix = sourceExtension →
        F.read job.path s = .ok bytes → closing = printedLines
          ((Source.ofString (toString job.path) (sourceText bytes)).tokenize.tokens.map
            Token.dump)) ∧
      (job.tokens = false → s' = ((compileFile F.disk job.options job.path).run s).2) := by
  rcases Bool.eq_false_or_eq_true job.tokens with htokens | htokens
  · obtain ⟨output, hrun, houtput⟩ := run_printTokens F s job
    refine ⟨output, s, fun verbose => ⟨"", "", ?_, fun _ => ⟨rfl, rfl⟩⟩, fun _ => ⟨rfl, houtput⟩,
      fun hfalse => ?_⟩
    · rw [perform, if_pos htokens, Job.failure?, if_pos htokens, String.empty_append,
        String.empty_append]
      exact hrun
    · rw [htokens] at hfalse
      cases hfalse
  · have hnot : ¬job.tokens = true := by
      rw [htokens]
      exact Bool.false_ne_true
    refine ⟨if job.compileFailure? F s = none then printedLines job.closing else "", _,
      fun verbose => ?_, fun htrue => absurd htrue hnot, fun _ => rfl⟩
    obtain ⟨opening, log, hrun, hquiet⟩ := run_compileJob F s { job with verbose := verbose }
    refine ⟨opening, log, ?_, fun h => hquiet (h.resolve_right hnot)⟩
    -- neither the files nor the result that is announced depend on whether a job is verbose
    have hclosing : Job.closing { job with verbose := verbose } = job.closing := rfl
    have hoptions : Job.options { job with verbose := verbose } = job.options := rfl
    have hpath : Job.path { job with verbose := verbose } = job.path := rfl
    have hfailure : Job.compileFailure? F s { job with verbose := verbose } =
        job.compileFailure? F s := by
      rw [Job.compileFailure?, Job.compileFailure?, hoptions, hpath]
    rw [hfailure, hclosing, hoptions, hpath] at hrun
    rw [perform, if_neg hnot, Job.failure?, if_neg hnot, hrun]

/-! ## Classified runs -/

/-- A run with valid arguments is classified by what ends the work of its job. -/
structure Classified (F : FileSystem σ ι) (s : σ) (job : Job) (o : Outcome) (s' : σ) : Prop where
  status_eq_zero_iff : o.status = 0 ↔ job.failure? F s = none
  status_eq_one_iff : o.status = 1 ↔ ∃ d, job.failure? F s = some d ∧ d.cause.IsProgramFault
  status_eq_two_iff : o.status = 2 ↔
    ∃ d, job.failure? F s = some d ∧ d.cause.family = some .access
  status_ne_three : o.status ≠ 3
  /-- A run that is not verbose prints the diagnostic and nothing else on the standard error. -/
  errors : job.verbose = false → o.errors = errorsOf (job.failure? F s)
  /-- When a compilation has succeeded, the output holds the code of the text of the file. -/
  compiled : job.tokens = false → o.status = 0 →
    ∃ bytes code, F.Holds s job.path bytes ∧ F.Holds s' job.outputPath code ∧
      ∀ filename, ∃ c, compile filename (sourceText bytes) = .ok c ∧
        code.map UInt8.toNat = c.code.toList.map Char.toNat
  unchanged : job.tokens = true → s' = s
  /-- A dump has one line for each token, up to the end of the text or to the first fault, and
  succeeds if there is none, as is the case if the text can be compiled. -/
  dumped : job.tokens = true → ∀ bytes, job.path.suffix = sourceExtension →
    F.read job.path s = .ok bytes →
      let source := Source.ofString (toString job.path) (sourceText bytes)
      o.output = unlines (source.tokenize.tokens.map Token.dump) ∧
      (∀ line ∈ source.tokenize.tokens.map Token.dump, OneLine line) ∧
      (o.status = 0 ↔ source.tokenize.failure = none) ∧
      ∀ filename c, compile filename (sourceText bytes) = .ok c → o.status = 0

variable {F s}

theorem statusOf_eq_zero_iff {failure : Option Diagnostic} :
    statusOf failure = 0 ↔ failure = none := by
  cases failure with
  | none => exact ⟨fun _ => rfl, fun _ => rfl⟩
  | some d =>
    unfold statusOf exitStatus
    dsimp only
    split_ifs
    all_goals simp

theorem statusOf_some_of_access {d : Diagnostic} (h : d.cause.family = some .access) :
    statusOf (some d) = 2 := if_pos h

theorem statusOf_some_of_isProgramFault {d : Diagnostic} (h : d.cause.IsProgramFault) :
    statusOf (some d) = 1 := if_neg h.family_ne

variable {job : Job}

theorem statusOf_failure_eq_one_iff :
    statusOf (job.failure? F s) = 1 ↔
      ∃ d, job.failure? F s = some d ∧ d.cause.IsProgramFault := by
  constructor
  · intro hstatus
    cases hfailure : job.failure? F s with
    | none =>
      rw [hfailure] at hstatus
      cases hstatus
    | some d =>
      rcases family_of_failure F s hfailure with hfault | haccess
      · exact ⟨d, rfl, hfault⟩
      · rw [hfailure, statusOf_some_of_access haccess] at hstatus
        cases hstatus
  · rintro ⟨d, hfailure, hfault⟩
    rw [hfailure, statusOf_some_of_isProgramFault hfault]

theorem statusOf_failure_eq_two_iff :
    statusOf (job.failure? F s) = 2 ↔
      ∃ d, job.failure? F s = some d ∧ d.cause.family = some .access := by
  constructor
  · intro hstatus
    cases hfailure : job.failure? F s with
    | none =>
      rw [hfailure] at hstatus
      cases hstatus
    | some d =>
      rcases family_of_failure F s hfailure with hfault | haccess
      · rw [hfailure, statusOf_some_of_isProgramFault hfault] at hstatus
        cases hstatus
      · exact ⟨d, rfl, haccess⟩
  · rintro ⟨d, hfailure, haccess⟩
    rw [hfailure, statusOf_some_of_access haccess]

theorem statusOf_ne_three (failure : Option Diagnostic) : statusOf failure ≠ 3 := by
  cases failure with
  | none => decide
  | some d =>
    unfold statusOf exitStatus
    dsimp only
    split_ifs
    all_goals decide

/-- When the compilation of a job has succeeded, the output holds the code of the text of the file,
under whatever name the text is compiled. -/
theorem holds_of_compileFailure?_eq_none (h : job.compileFailure? F s = none) :
    ∃ bytes code, F.Holds s job.path bytes ∧
      F.Holds ((compileFile F.disk job.options job.path).run s).2 job.outputPath code ∧
      ∀ filename, ∃ c, compile filename (sourceText bytes) = .ok c ∧
        code.map UInt8.toNat = c.code.toList.map Char.toNat := by
  have hrun := compilesTo_run F job.options job.path s
  unfold Job.compileFailure? at h
  generalize ((compileFile F.disk job.options job.path).run s).1.result = result at h hrun
  generalize ((compileFile F.disk job.options job.path).run s).2 = s' at hrun ⊢
  cases hrun with
  | @written hsuffix bytes hread c hcompile output houtput s' hwrite =>
    obtain rfl : job.output.getD defaultOutput = output := Option.some.inj houtput
    have hstores : F.Stores job.outputPath (Text.singleBytes c.code) s s' :=
      F.entry?_of_write hwrite
    refine ⟨bytes, Text.singleBytes c.code, F.entry?_of_read hread, hstores.holds, ?_⟩
    intro filename
    obtain ⟨c', hcompile', hcode⟩ := compile_code_of_filename filename hcompile
    refine ⟨c', hcompile', ?_⟩
    rw [hcode]
    exact Text.map_toNat_singleBytes (allChars_code hcompile)
  | wrongExtension | unreadable | fault | noOutput | unwritable => cases h

/-- What is left of a job is classified by what ends its work. -/
theorem classified_perform (F : FileSystem σ ι) (s : σ) (job : Job) :
    Classified F s job ((perform F.disk job).run s).1 ((perform F.disk job).run s).2 := by
  obtain ⟨closing, s', hruns, hdump, hcompile⟩ := run_perform F s job
  obtain ⟨opening, log, hrun, hquiet⟩ := hruns job.verbose
  have hjob : ({ job with verbose := job.verbose } : Job) = job := rfl
  rw [hjob] at hrun
  rw [hrun]
  refine ⟨statusOf_eq_zero_iff, statusOf_failure_eq_one_iff, statusOf_failure_eq_two_iff,
    statusOf_ne_three _, ?_, ?_, fun htokens => (hdump htokens).1, ?_⟩
  · intro hverbose
    obtain ⟨-, rfl⟩ := hquiet (.inl hverbose)
    exact String.empty_append
  · intro htokens hstatus
    have hnone := statusOf_eq_zero_iff.mp hstatus
    rw [Job.failure?, if_neg (by rw [htokens]; exact Bool.false_ne_true)] at hnone
    have hholds := holds_of_compileFailure?_eq_none hnone
    rw [← hcompile htokens] at hholds
    exact hholds
  · intro htokens bytes hsuffix hread source
    obtain ⟨rfl, -⟩ := hquiet (.inr htokens)
    obtain ⟨hlines, honeLine⟩ := printedLines_dump source.tokenize.tokens
    have hfailure : job.failure? F s = source.tokenize.failure := by
      rw [Job.failure?, if_pos htokens, Job.dumpFailure?, if_pos hsuffix, hread]
    refine ⟨?_, honeLine, ?_, ?_⟩
    · rw [← hlines, ← (hdump htokens).2 bytes hsuffix hread]
      exact String.empty_append
    · rw [← hfailure]
      exact statusOf_eq_zero_iff
    · intro filename c hc
      obtain ⟨d, hdraft, -⟩ := exists_draft_of_compile hc
      have hclean : source.tokenize.failure = none :=
        failure_eq_none_of_filename _ (Source.clean_of_draft hdraft)
      exact statusOf_eq_zero_iff.mpr (hfailure.trans hclean)

/-- A verbose job does the same work, and prints more before what it prints anyway. -/
theorem run_perform_verbose (F : FileSystem σ ι) (s : σ) (job : Job) :
    let outcome := ((perform F.disk job).run s).1
    let spoken := ((perform F.disk { job with verbose := true }).run s).1
    spoken.status = outcome.status ∧
      ((perform F.disk { job with verbose := true }).run s).2 = ((perform F.disk job).run s).2 ∧
      (∃ more, spoken.output = more ++ outcome.output) ∧
      ∃ more, spoken.errors = more ++ outcome.errors := by
  intro outcome spoken
  rcases Bool.eq_false_or_eq_true job.verbose with hverbose | hverbose
  · have hjob : ({ job with verbose := true } : Job) = job := by rw [← hverbose]
    have hspoken : spoken = outcome := by
      show ((perform F.disk _).run s).1 = ((perform F.disk job).run s).1
      rw [hjob]
    rw [hspoken, hjob]
    exact ⟨rfl, rfl, ⟨"", String.empty_append.symm⟩, "", String.empty_append.symm⟩
  · obtain ⟨closing, s', hruns, -⟩ := run_perform F s job
    obtain ⟨_, _, hrun, hquiet⟩ := hruns false
    obtain ⟨rfl, rfl⟩ := hquiet (.inl rfl)
    obtain ⟨opening, log, hspoken, -⟩ := hruns true
    have hjob : ({ job with verbose := false } : Job) = job := by rw [← hverbose]
    rw [hjob, String.empty_append, String.empty_append] at hrun
    have houtcome : outcome = _ := congrArg Prod.fst hrun
    have hspoken' : spoken = _ := congrArg Prod.fst hspoken
    rw [hspoken, hrun, houtcome, hspoken']
    exact ⟨rfl, rfl, ⟨opening, rfl⟩, log, rfl⟩

/-- A run with valid arguments is classified by what ends the work of the job that they describe.
With a `-v` more, or with any other arguments that describe the same job as a verbose one, it has
the same status and leaves the same files, and what it prints ends with what is printed without. -/
theorem run_classified {arguments : List String} (h : Describes F s arguments job) :
    Classified F s job ((run F.disk arguments).run s).1 ((run F.disk arguments).run s).2 ∧
      Describes F s ("-v" :: arguments) { job with verbose := true } ∧
      ∀ arguments', Describes F s arguments' { job with verbose := true } →
        let outcome := ((run F.disk arguments).run s).1
        let spoken := ((run F.disk arguments').run s).1
        spoken.status = outcome.status ∧
          ((run F.disk arguments').run s).2 = ((run F.disk arguments).run s).2 ∧
          (∃ more, spoken.output = more ++ outcome.output) ∧
          ∃ more, spoken.errors = more ++ outcome.errors := by
  refine ⟨?_, h.verbose, ?_⟩
  · rw [run_of_describes h]
    exact classified_perform F s job
  · intro arguments' h'
    rw [run_of_describes h, run_of_describes h']
    exact run_perform_verbose F s job

/-- A dump of a file with a string that is not ASCII, and the same with a `-v` more. -/
theorem run_classified_wide_dump :
    ∃ o spoken : Outcome,
      (run FileTree.fileSystem.disk ["-f", "wide.tt", "--tokens"]).run wideTree = (o, wideTree) ∧
      o.status = 0 ∧ o.errors = "" ∧
      o.output = "Token(PRINT, 'PRINT', 1:1)\nToken(STRING, 'é', 1:6)\nToken(NEWLINE, 1:9)\n" ++
        "Token(NEWLINE, 2:1)\nToken(EOF, 3:1)\n" ∧
      ((run FileTree.fileSystem.disk ["-v", "-f", "wide.tt", "--tokens"]).run wideTree).1 = spoken ∧
      spoken.status = 0 ∧ ∃ more, spoken.output = more ++ o.output := by
  have h : Describes FileTree.fileSystem wideTree ["-f", "wide.tt", "--tokens"]
      ⟨"wide.tt", none, true, false⟩ := by
    have hnone : Arguments.read [] = .ok ⟨[], []⟩ := by rw [Arguments.read]
    have htokens : Arguments.readOption "--tokens".toList [] = .ok ([⟨.tokens, ""⟩], []) := by rfl
    have hfile : Arguments.readOption "-f".toList ["wide.tt", "--tokens"] =
        .ok ([⟨.file, "wide.tt"⟩], ["--tokens"]) := by rfl
    have hread : Arguments.read ["-f", "wide.tt", "--tokens"] =
        .ok ⟨[⟨.file, "wide.tt"⟩, ⟨.tokens, ""⟩], []⟩ :=
      read_of_readOption (by decide) (by decide) hfile
        (read_of_readOption (by decide) (by decide) htokens hnone)
    have hdirectory : FileTree.fileSystem.isDirectory "wide.tt" wideTree = false := by rfl
    exact ⟨⟨_, hread, rfl, rfl, rfl, rfl, rfl, rfl⟩, hdirectory, fun path hpath => by cases hpath⟩
  obtain ⟨hclassified, hspoken, hverbose⟩ := run_classified h
  have hread : FileTree.fileSystem.read (.ofString "wide.tt") wideTree = .ok wideFile := by rfl
  have hsuffix : (Path.ofString "wide.tt").suffix = sourceExtension := by rfl
  obtain ⟨houtput, -, hstatus, -⟩ := hclassified.dumped rfl wideFile hsuffix hread
  have hclean : (Source.ofString "wide.tt" (sourceText wideFile)).tokenize.failure = none := by cbv
  have hlines : unlines
      ((Source.ofString "wide.tt" (sourceText wideFile)).tokenize.tokens.map Token.dump) =
      "Token(PRINT, 'PRINT', 1:1)\nToken(STRING, 'é', 1:6)\nToken(NEWLINE, 1:9)\n" ++
        "Token(NEWLINE, 2:1)\nToken(EOF, 3:1)\n" := by cbv
  have hzero := hstatus.mpr hclean
  obtain ⟨hsame, -, hmore, -⟩ := hverbose _ hspoken
  refine ⟨_, _, Prod.ext rfl (hclassified.unchanged rfl), hzero, ?_, houtput.trans hlines, rfl,
    hsame.trans hzero, hmore⟩
  rw [hclassified.errors rfl, hclassified.status_eq_zero_iff.mp hzero]
  rfl

end CommandLine
end PocketBasic

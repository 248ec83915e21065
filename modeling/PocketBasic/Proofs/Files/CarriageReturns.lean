import PocketBasic.Proofs.CommandLine.Runs
import PocketBasic.Proofs.Layout
import PocketBasic.Proofs.Lexing.CarriageReturns

/-!
# Line ends of two characters

A text and the same text with carriage returns before line ends are answered with the same tokens
and with faults in the same places.  So either both are at fault, or they are the same program
(`compiledAlike_of_words?_events`).

A file is read with one kind of line ends, and a text keeps those it has.  If every carriage
return in a file stands before a line end, what is read is the text of its bytes without these
carriage returns (`withReturns_unifyLineEnds`), so it makes no difference whether the file is
compiled or the text of its bytes.

Main statement: `compile_withReturns`, which says both.
-/

namespace PocketBasic

/-! ## Programs that are the same -/

/-- What is compiled is the same, the name of the file and the path of the output apart. -/
structure Compiled.SameProgram (c c' : Compiled) : Prop where
  code : c.code = c'.code
  variableNames : c.variableNames = c'.variableNames
  labels : c.labels = c'.labels
  tokenCount : c.tokenCount = c'.tokenCount

/-- Two texts are accepted as the same program, or neither is accepted. -/
inductive CompiledAlike : Except Diagnostic Compiled → Except Diagnostic Compiled → Prop where
  | accepted {c c' : Compiled} (h : c.SameProgram c') : CompiledAlike (.ok c) (.ok c')
  | rejected (d d' : Diagnostic) : CompiledAlike (.error d) (.error d')

/-- A source with a lexical fault has no result. -/
theorem exists_error_of_failure {filename text : String} {fault : Diagnostic}
    (h : (Source.ofString filename text).tokenize.failure = some fault) :
    ∃ d, compile filename text = .error d := by
  obtain ⟨d, hd⟩ := Source.draft_eq_error h
  exact ⟨d, by rw [compile_eq, hd]; rfl⟩

/-- Sources that are read without a fault, and as the same words, are compiled alike. -/
theorem compiledAlike_of_words_eq {filename filename' text text' : String}
    (hclean : (Source.ofString filename text).tokenize.failure = none)
    (hclean' : (Source.ofString filename' text').tokenize.failure = none)
    (h : (Source.ofString filename text).tokenize.tokens.map Token.word =
      (Source.ofString filename' text').tokenize.tokens.map Token.word) :
    CompiledAlike (compile filename text) (compile filename' text') := by
  have hsame := Draft.readProgram_of_words_eq h ⟨"", 0, 0⟩
  have hlength := congrArg List.length h
  rw [List.length_map, List.length_map] at hlength
  rw [compile_eq, compile_eq, Source.draft_eq_readProgram hclean,
    Source.draft_eq_readProgram hclean']
  generalize (Draft.start .empty .empty).readProgram
    (Source.ofString filename text).tokenize.tokens = outcome at hsame ⊢
  generalize (Draft.start .empty .empty).readProgram
    (Source.ofString filename' text').tokenize.tokens = outcome' at hsame ⊢
  cases outcome with
  | error fault =>
    cases outcome' with
    | error fault' => exact .rejected _ _
    | ok d' => cases hsame
  | ok d =>
    cases outcome' with
    | error fault' => cases hsame
    | ok d' =>
      obtain ⟨hlisting, hvariables, hlabels⟩ := Draft.same_of_relocate_eq (Except.ok.inj hsame)
      refine .accepted ⟨congrArg Listing.render hlisting, ?_, hlabels,
        congrArg (fun n => n - 1) hlength⟩
      exact congrArg (fun names => names.mergeSort fun a b => a ≤ b) hvariables

/-- Sources that are answered with the same words, and with faults in the same places among
them, are compiled alike. -/
theorem compiledAlike_of_words?_events {filename filename' text text' : String}
    (h : (Source.ofString filename' text').events.map word? =
      (Source.ofString filename text).events.map word?) :
    CompiledAlike (compile filename text) (compile filename' text') := by
  cases hfailure : (Source.ofString filename text).tokenize.failure with
  | none =>
    obtain ⟨hclean', hwords⟩ := Source.tokens_of_words?_events hfailure h
    exact compiledAlike_of_words_eq hfailure hclean' hwords.symm
  | some fault =>
    cases hfailure' : (Source.ofString filename' text').tokenize.failure with
    | none =>
      obtain ⟨hclean, -⟩ := Source.tokens_of_words?_events hfailure' h.symm
      rw [hfailure] at hclean
      cases hclean
    | some fault' =>
      obtain ⟨d, hd⟩ := exists_error_of_failure hfailure
      obtain ⟨d', hd'⟩ := exists_error_of_failure hfailure'
      rw [hd, hd']
      exact .rejected d d'

/-! ## Bytes -/

/-- Every carriage return stands before a line end. -/
def ReturnsEndLines : List UInt8 → Prop
  | [] => True
  | b :: rest => (b = 13 → rest.head? = some 10) ∧ ReturnsEndLines rest

instance decidableReturnsEndLines : (bytes : List UInt8) → Decidable (ReturnsEndLines bytes)
  | [] => inferInstanceAs (Decidable True)
  | b :: rest =>
    have := decidableReturnsEndLines rest
    inferInstanceAs (Decidable ((b = 13 → rest.head? = some 10) ∧ ReturnsEndLines rest))

theorem eq_thirteen_of_ofNat_eq {b : UInt8} (h : Char.ofNat b.toNat = '\r') : b = 13 := by
  have hb : b.toNat < 256 := b.toNat_lt
  have hvalid : (Char.ofNat b.toNat).toNat = b.toNat := by
    rw [Char.toNat_ofNat, if_pos (.inl (by omega))]
  rw [h] at hvalid
  exact UInt8.toNat_inj.mp hvalid.symm

/-- If every carriage return stands before a line end, unifying the line ends takes away the
carriage returns before line ends and nothing else. -/
theorem withReturns_unifyLineEnds {bytes : List UInt8} (h : ReturnsEndLines bytes) :
    WithReturns (Text.unifyLineEnds (Text.decodeBytes bytes)) (Text.decodeBytes bytes) := by
  generalize htext : Text.decodeBytes bytes = text
  fun_induction Text.unifyLineEnds text generalizing bytes with
  | case1 => exact .nil
  | case2 rest ih =>
    obtain ⟨b, bytes, rfl, -, hbytes⟩ := List.map_eq_cons_iff.mp htext
    obtain ⟨b', bytes, rfl, -, hrest⟩ := List.map_eq_cons_iff.mp hbytes
    exact .inserted (ih h.2.2 hrest)
  | case3 rest hnone ih =>
    obtain ⟨b, bytes, rfl, hb, hrest⟩ := List.map_eq_cons_iff.mp htext
    obtain rfl := eq_thirteen_of_ofNat_eq hb
    have hhead := h.1 rfl
    cases bytes with
    | nil => cases hhead
    | cons b' bytes =>
      obtain rfl := Option.some.inj hhead
      exact absurd hrest.symm (hnone _)
  | case4 c rest _ hne ih =>
    obtain ⟨b, bytes, rfl, rfl, hrest⟩ := List.map_eq_cons_iff.mp htext
    exact .same _ (ih h.2 hrest)

/-! ## Texts and files -/

/-- The text of a file, with all characters that its bytes stand for. -/
def keptText (bytes : List UInt8) : String := String.ofList (Text.decodeBytes bytes)

theorem compiledAlike_sourceText (filename filename' : String) {bytes : List UInt8}
    (h : ReturnsEndLines bytes) :
    CompiledAlike (compile filename (sourceText bytes)) (compile filename' (keptText bytes)) := by
  refine compiledAlike_of_words?_events (Source.words?_events_of_withReturns ?_)
  rw [sourceText, keptText, String.toList_ofList, String.toList_ofList]
  exact withReturns_unifyLineEnds h

variable {σ ι : Type}

/-- What compiling a file comes to, told by what compiling some text comes to: if the text is
rejected, the file is for a fault of the program; if the text is accepted, the result of the file
is the same program, unless there is no output or the system refuses to write that very code. -/
def FileAlike (F : FileSystem σ ι) (options : CompileOptions) (s : σ)
    (ofText ofFile : Except Diagnostic Compiled) : Prop :=
  (∀ d, ofText = .error d → ∃ d', ofFile = .error d' ∧ d'.cause.IsProgramFault) ∧
  ∀ c, ofText = .ok c →
    (∃ c', ofFile = .ok c' ∧ c.SameProgram c') ∨ options.output = none ∨
      ∃ output refusal, options.output = some output ∧
        F.write (.ofString output) (Text.singleBytes c.code) s = .error refusal

theorem fileAlike_of_compiledAlike {F : FileSystem σ ι} {options : CompileOptions} {path : Path}
    {s : σ} {bytes : List UInt8} {ofText : Except Diagnostic Compiled}
    (hsuffix : path.suffix = options.extension) (hread : F.read path s = .ok bytes)
    (h : CompiledAlike (compile (toString path) (sourceText bytes)) ofText) :
    FileAlike F options s ofText ((compileFile F.disk options path).run s).1.result := by
  generalize hcompile : compile (toString path) (sourceText bytes) = ofSource at h
  cases h with
  | rejected d d' =>
    refine ⟨fun _ _ => ?_, fun c hc => by cases hc⟩
    exact ⟨d, (eq_of_compilesTo (.fault hsuffix hread hcompile)).1,
      isProgramFault_of_compile hcompile⟩
  | @accepted c c' hsame =>
    refine ⟨fun d hd => (by cases hd), fun c'' hc => ?_⟩
    obtain rfl := Except.ok.inj hc
    cases houtput : options.output with
    | none => exact .inr (.inl rfl)
    | some output =>
      cases hwrite : F.write (.ofString output) (Text.singleBytes c.code) s with
      | error refusal =>
        rw [hsame.code] at hwrite
        exact .inr (.inr ⟨output, refusal, rfl, hwrite⟩)
      | ok s' =>
        refine .inl ⟨_, (eq_of_compilesTo (.written hsuffix hread hcompile houtput hwrite)).1, ?_⟩
        exact ⟨hsame.code.symm, hsame.variableNames.symm, hsame.labels.symm,
          hsame.tokenCount.symm⟩

/-- Carriage returns before line ends do not change a program.  A text and the same text with
carriage returns before any of its line ends are accepted as the same program, or neither is.  And
so a file in which every carriage return stands before a line end, which is read without them,
is compiled as the text of its bytes is, with the carriage returns in it. -/
theorem compile_withReturns :
    (∀ filename filename' plain returned : String, WithReturns plain.toList returned.toList →
      CompiledAlike (compile filename plain) (compile filename' returned)) ∧
    ∀ {σ ι : Type} (F : FileSystem σ ι) (options : CompileOptions) (path : Path) (s : σ)
      (bytes : List UInt8) (filename : String),
      path.suffix = options.extension → F.read path s = .ok bytes → ReturnsEndLines bytes →
        FileAlike F options s (compile filename (keptText bytes))
          ((compileFile F.disk options path).run s).1.result := by
  refine ⟨fun filename filename' plain returned h => ?_, ?_⟩
  · exact compiledAlike_of_words?_events (Source.words?_events_of_withReturns h)
  · intro σ ι F options path s bytes filename hsuffix hread hreturns
    exact fileAlike_of_compiledAlike hsuffix hread (compiledAlike_sourceText _ _ hreturns)

/-- A text of two lines, one of them with a comment, and a file with a string that is not
ASCII. -/
theorem compile_withReturns_wide :
    WithReturns "PRINT 1 # one\nPRINT 2\n".toList "PRINT 1 # one\r\nPRINT 2\n".toList ∧
      CompiledAlike (compile "a.tt" "PRINT 1 # one\nPRINT 2\n")
        (compile "b.tt" "PRINT 1 # one\r\nPRINT 2\n") ∧
      FileTree.fileSystem.read ⟨.working, ["wide.tt"]⟩ wideTree = .ok wideFile ∧
      ReturnsEndLines wideFile ∧ keptText wideFile = "PRINT\"é\"\r\n" ∧
      ∃ c c', compile "wide.txt" "PRINT\"é\"\r\n" = .ok c ∧
        ((compileFile FileTree.fileSystem.disk {} ⟨.working, ["wide.tt"]⟩).run wideTree).1.result =
          .ok c' ∧ c.SameProgram c' := by
  have htexts : WithReturns "PRINT 1 # one\nPRINT 2\n".toList
      "PRINT 1 # one\r\nPRINT 2\n".toList := by
    have hfirst := WithReturns.refl "PRINT 1 # one".toList
    have hsecond := WithReturns.refl "PRINT 2\n".toList
    exact hfirst.append (.inserted hsecond)
  have hread : FileTree.fileSystem.read ⟨.working, ["wide.tt"]⟩ wideTree = .ok wideFile := by
    rfl
  have hsuffix : Path.suffix ⟨.working, ["wide.tt"]⟩ = CompileOptions.extension {} := by rfl
  have hreturns : ReturnsEndLines wideFile := by decide
  have hkept : keptText wideFile = "PRINT\"é\"\r\n" := by decide
  have hcompile : compile "wide.txt" "PRINT\"é\"\r\n" = .ok ⟨"wide.txt",
      "#include <stdio.h>\nint main(void)\x7b\nprintf(\"é\\n\");\nreturn 0;\n\x7d\n",
      4, [], [], none⟩ := by cbv
  obtain ⟨-, haccepted⟩ := compile_withReturns.2 FileTree.fileSystem {} ⟨.working, ["wide.tt"]⟩
    wideTree wideFile "wide.txt" hsuffix hread hreturns
  rw [hkept] at haccepted
  refine ⟨htexts, compile_withReturns.1 _ _ _ _ htexts, hread, hreturns, hkept, ?_⟩
  rcases haccepted _ hcompile with ⟨c', hc', hsame⟩ | hnone | ⟨output, refusal, houtput, hwrite⟩
  · exact ⟨_, c', hcompile, hc', hsame⟩
  · cases hnone
  · obtain rfl := Option.some.inj houtput
    cases hwrite

end PocketBasic

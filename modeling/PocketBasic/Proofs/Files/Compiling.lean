import PocketBasic.Proofs.Files.FileSystem
import PocketBasic.Proofs.Translation.Characters
import PocketBasic.Session

/-!
# Compiling files

A file is compiled in stages: its name is checked, it is read, its text is compiled, and the code
is written.  `CompilesTo` has one constructor for each stage that can fail and one for the file
that passes all of them, and each constructor says that the stages before have passed.  That
compiling a file leads to what `CompilesTo` says (`compilesTo_run`) is all that the rest needs to
know of `compileFile`.

There is no stage for code that cannot be written as single bytes.  The text of a file is made of
single bytes, the code of a text is made of ASCII and characters of the text
(`isAscii_or_quotesChar`), and so each character of the code is a single byte (`allChars_code`).
-/

namespace PocketBasic

/-! ## Bytes -/

namespace Text

theorem isByte_of_mem_decodeBytes {bytes : List UInt8} {c : Char} (h : c ∈ decodeBytes bytes) :
    isByte c := by
  obtain ⟨b, -, rfl⟩ := List.mem_map.mp h
  have hb : b.toNat < 256 := b.toNat_lt
  have hvalid : (Char.ofNat b.toNat).toNat = b.toNat := by
    rw [Char.toNat_ofNat, if_pos (.inl (by omega))]
  rw [isByte, hvalid]
  exact decide_eq_true hb

/-- Unifying the line ends of a text brings no other characters into it than line ends. -/
theorem mem_of_mem_unifyLineEnds {text : List Char} {c : Char} (h : c ∈ unifyLineEnds text) :
    c ∈ text ∨ c = '\n' := by
  fun_induction unifyLineEnds text with
  | case1 => cases h
  | case2 rest ih =>
    rcases List.mem_cons.mp h with rfl | h
    · exact .inr rfl
    · exact (ih h).imp_left fun h => List.mem_cons_of_mem _ (List.mem_cons_of_mem _ h)
  | case3 rest _ ih =>
    rcases List.mem_cons.mp h with rfl | h
    · exact .inr rfl
    · exact (ih h).imp_left (List.mem_cons_of_mem _)
  | case4 c' rest _ _ ih =>
    rcases List.mem_cons.mp h with rfl | h
    · exact .inl List.mem_cons_self
    · exact (ih h).imp_left (List.mem_cons_of_mem _)

/-- The bytes that stand for characters which are single bytes. -/
def singleBytes (text : String) : List UInt8 := text.toList.map fun c => c.toNat.toUInt8

/-- Each of the bytes is the code point of its character. -/
theorem map_toNat_singleBytes {text : String} (h : AllChars (isByte · = true) text) :
    (singleBytes text).map UInt8.toNat = text.toList.map Char.toNat := by
  rw [singleBytes, List.map_map]
  refine List.map_congr_left fun c hc => ?_
  have hbyte : c.toNat < 256 := of_decide_eq_true (h c hc)
  show c.toNat.toUInt8.toNat = c.toNat
  rw [Nat.toUInt8, UInt8.toNat_ofNat', Nat.mod_eq_of_lt hbyte]

theorem encodeBytes_eq_ok {text : String} (h : AllChars (isByte · = true) text) :
    encodeBytes text.toList = .ok (singleBytes text) := by
  rw [encodeBytes, firstWideRun_eq_nil_iff.mpr h]
  rfl

end Text

/-- The text of a file is made of single bytes. -/
theorem allChars_sourceText (bytes : List UInt8) :
    AllChars (Text.isByte · = true) (sourceText bytes) := by
  intro c hc
  rw [sourceText, String.toList_ofList] at hc
  rcases Text.mem_of_mem_unifyLineEnds hc with hc | rfl
  · exact Text.isByte_of_mem_decodeBytes hc
  · decide

/-- The code of a file is made of single bytes. -/
theorem allChars_code {filename : String} {bytes : List UInt8} {c : Compiled}
    (h : compile filename (sourceText bytes) = .ok c) :
    AllChars (Text.isByte · = true) c.code := by
  refine (isAscii_or_quotesChar h).imp ?_
  rintro ch (hascii | hquoted)
  · exact decide_eq_true (Nat.lt_trans hascii (by decide))
  · have hmem := hquoted.mem
    rw [String.toList_append] at hmem
    rcases List.mem_append.mp hmem with hmem | hmem
    · exact allChars_sourceText bytes ch hmem
    · rw [List.mem_singleton.mp hmem]
      decide

/-! ## The stages of compiling a file -/

variable {σ ι : Type}

/-- What compiling a file comes to in a state of a file system, and the state behind it. -/
inductive CompilesTo (F : FileSystem σ ι) (options : CompileOptions) (path : Path) (s : σ) :
    Except Diagnostic Compiled → σ → Prop where
  | wrongExtension (hsuffix : path.suffix ≠ options.extension) :
    CompilesTo F options path s
      (.error (.ofAccess (.wrongExtension (toString path) options.extension))) s
  | unreadable (hsuffix : path.suffix = options.extension) {refusal : Refusal}
    (hread : F.read path s = .error refusal) :
    CompilesTo F options path s
      (.error (.ofAccess (.unreadable (toString path) refusal.reason))) s
  | fault (hsuffix : path.suffix = options.extension) {bytes : List UInt8}
    (hread : F.read path s = .ok bytes) {d : Diagnostic}
    (hcompile : compile (toString path) (sourceText bytes) = .error d) :
    CompilesTo F options path s (.error d) s
  /-- There is no path to write the code to. -/
  | noOutput (hsuffix : path.suffix = options.extension) {bytes : List UInt8}
    (hread : F.read path s = .ok bytes) {c : Compiled}
    (hcompile : compile (toString path) (sourceText bytes) = .ok c)
    (houtput : options.output = none) :
    CompilesTo F options path s
      (.error (.ofAccess (.unwritable "<none>" "no output path configured"))) s
  | unwritable (hsuffix : path.suffix = options.extension) {bytes : List UInt8}
    (hread : F.read path s = .ok bytes) {c : Compiled}
    (hcompile : compile (toString path) (sourceText bytes) = .ok c) {output : String}
    (houtput : options.output = some output) {refusal : Refusal}
    (hwrite : F.write (.ofString output) (Text.singleBytes c.code) s = .error refusal) :
    CompilesTo F options path s
      (.error (.ofAccess (.unwritable (toString (Path.ofString output)) refusal.reason))) s
  | written (hsuffix : path.suffix = options.extension) {bytes : List UInt8}
    (hread : F.read path s = .ok bytes) {c : Compiled}
    (hcompile : compile (toString path) (sourceText bytes) = .ok c) {output : String}
    (houtput : options.output = some output) {s' : σ}
    (hwrite : F.write (.ofString output) (Text.singleBytes c.code) s = .ok s') :
    CompilesTo F options path s (.ok { c with outputPath := some (.ofString output) }) s'

variable (F : FileSystem σ ι) (options : CompileOptions) (path : Path) (s : σ)

/-- Reading a source changes nothing. -/
theorem run_readSource : (readSource F.disk path).run s =
    ((match F.read path s with
      | .error refusal => .error (.ofAccess (.unreadable (toString path) refusal.reason))
      | .ok bytes => .ok (sourceText bytes)), s) := by
  rw [readSource, run_bind_of_run (F.run_read path)]
  cases F.read path s
  all_goals rfl

/-- What storing a listing of single bytes comes to. -/
theorem run_storeTranslation_some (output : Path) (filename : String) {t : Translation}
    (h : AllChars (Text.isByte · = true) t.listing.render) :
    (∃ refusal, F.write output (Text.singleBytes t.listing.render) s = .error refusal ∧
      (storeTranslation F.disk (some output) filename t).run s =
        (⟨[], .error (.ofAccess (.unwritable (toString output) refusal.reason))⟩, s)) ∨
    ∃ s', F.write output (Text.singleBytes t.listing.render) s = .ok s' ∧
      (storeTranslation F.disk (some output) filename t).run s =
        (⟨[.wroteBytes t.listing.render.length (toString output), .wrote (toString output)],
          .ok { Compiled.ofTranslation filename t with outputPath := some output }⟩, s') := by
  have hcontent : Output.content? ⟨some output, t.listing, false⟩ =
      .ok (output, Text.singleBytes t.listing.render) := by
    rw [Output.content?, Text.encodeBytes_eq_ok h]
    rfl
  rw [storeTranslation]
  cases hwrite : F.write output (Text.singleBytes t.listing.render) s with
  | error refusal =>
    refine .inl ⟨refusal, rfl, ?_⟩
    rw [run_bind_of_run (F.run_store_of_refused hcontent hwrite)]
    rfl
  | ok s' =>
    refine .inr ⟨s', rfl, ?_⟩
    rw [run_bind_of_run (F.run_store_of_ok hcontent hwrite)]
    rfl

section Read

variable (hsuffix : path.suffix = options.extension) {bytes : List UInt8}
  (hread : F.read path s = .ok bytes)

include hsuffix hread

/-- If the text of a file is at fault, its diagnostic is the result. -/
theorem run_compileFile_of_fault {d : Diagnostic}
    (h : (translateText (toString path) (sourceText bytes)).result = .error d) :
    (compileFile F.disk options path).run s =
      (⟨(translateText (toString path) (sourceText bytes)).events, .error d⟩, s) := by
  unfold compileFile checkExtension
  rw [if_pos hsuffix]
  dsimp only
  rw [run_bind_of_run (run_readSource F path s), hread]
  dsimp only
  rw [h]
  rfl

/-- If the text of a file is translated, the result is that of storing the translation. -/
theorem run_compileFile_of_translated {t : Translation}
    (h : (translateText (toString path) (sourceText bytes)).result = .ok t)
    {output : Option String} (houtput : options.output = output)
    {stored : Compilation Compiled} {s' : σ}
    (hstore : (storeTranslation F.disk (output.map .ofString) (toString path) t).run s =
      (stored, s')) :
    (compileFile F.disk options path).run s =
      (⟨(translateText (toString path) (sourceText bytes)).events ++ stored.events,
        stored.result⟩, s') := by
  unfold compileFile checkExtension
  rw [if_pos hsuffix]
  dsimp only
  rw [run_bind_of_run (run_readSource F path s), hread]
  dsimp only
  rw [h]
  dsimp only
  rw [houtput, run_bind_of_run hstore]
  rfl

end Read

/-- Compiling a file leads to what its stages come to. -/
theorem compilesTo_run :
    CompilesTo F options path s ((compileFile F.disk options path).run s).1.result
      ((compileFile F.disk options path).run s).2 := by
  by_cases hsuffix : path.suffix = options.extension
  case neg =>
    unfold compileFile checkExtension
    rw [if_neg hsuffix]
    exact .wrongExtension hsuffix
  cases hread : F.read path s with
  | error refusal =>
    unfold compileFile checkExtension
    rw [if_pos hsuffix]
    dsimp only
    rw [run_bind_of_run (run_readSource F path s), hread]
    exact .unreadable hsuffix hread
  | ok bytes =>
    cases htranslate : (translateText (toString path) (sourceText bytes)).result with
    | error d =>
      have hcompile : compile (toString path) (sourceText bytes) = .error d := by
        rw [compile, htranslate]
        rfl
      rw [run_compileFile_of_fault F options path s hsuffix hread htranslate]
      exact .fault hsuffix hread hcompile
    | ok t =>
      have hcompile : compile (toString path) (sourceText bytes) =
          .ok (.ofTranslation (toString path) t) := by
        rw [compile, htranslate]
        rfl
      cases houtput : options.output with
      | none =>
        rw [run_compileFile_of_translated F options path s hsuffix hread htranslate houtput rfl]
        exact .noOutput hsuffix hread hcompile houtput
      | some output =>
        rcases run_storeTranslation_some F s (.ofString output) (toString path)
          (allChars_code hcompile) with ⟨refusal, hwrite, hstore⟩ | ⟨s', hwrite, hstore⟩
        · rw [run_compileFile_of_translated F options path s hsuffix hread htranslate houtput
            hstore]
          exact .unwritable hsuffix hread hcompile houtput hwrite
        · rw [run_compileFile_of_translated F options path s hsuffix hread htranslate houtput
            hstore]
          exact .written hsuffix hread hcompile houtput hwrite

/-- The stages decide what compiling a file comes to. -/
theorem CompilesTo.unique {F : FileSystem σ ι} {options : CompileOptions} {path : Path}
    {s t t' : σ} {result result' : Except Diagnostic Compiled}
    (h : CompilesTo F options path s result t) (h' : CompilesTo F options path s result' t') :
    result = result' ∧ t = t' := by
  -- two stages that both decide would have the same check pass and fail
  cases h
  all_goals
    cases h'
    all_goals simp_all

/-- What the stages come to is what compiling the file leads to. -/
theorem eq_of_compilesTo {F : FileSystem σ ι} {options : CompileOptions} {path : Path} {s s' : σ}
    {result : Except Diagnostic Compiled} (h : CompilesTo F options path s result s') :
    ((compileFile F.disk options path).run s).1.result = result ∧
      ((compileFile F.disk options path).run s).2 = s' :=
  (compilesTo_run F options path s).unique h

/-! ## Files and texts -/

/-- A file that can be read is compiled as its text is.  If the text is at fault, the diagnostic is
the same.  If it is not, its code consists of ASCII and characters of the strings in it, so that
each character can be written as one byte; if the system stores these bytes, the result is that of
the text together with the path, and the file at the path holds them. -/
theorem compileFile_eq_compile {F : FileSystem σ ι} {options : CompileOptions} {path : Path}
    {s : σ} {bytes : List UInt8} (hsuffix : path.suffix = options.extension)
    (hread : F.read path s = .ok bytes) :
    (∀ d, compile (toString path) (sourceText bytes) = .error d →
      ((compileFile F.disk options path).run s).1.result = .error d) ∧
    ∀ c, compile (toString path) (sourceText bytes) = .ok c →
      AllChars (fun ch => IsAscii ch ∨
        (Source.ofString (toString path) (sourceText bytes)).QuotesChar ch) c.code ∧
      ∃ code, Text.encodeBytes c.code.toList = .ok code ∧
        code.map UInt8.toNat = c.code.toList.map Char.toNat ∧
        ∀ output, options.output = some output → ∀ s',
          F.write (.ofString output) code s = .ok s' →
            ((compileFile F.disk options path).run s).1.result =
              .ok { c with outputPath := some (.ofString output) } ∧
            ((compileFile F.disk options path).run s).2 = s' ∧
            F.Holds s' (.ofString output) code := by
  refine ⟨fun d hcompile => (eq_of_compilesTo (.fault hsuffix hread hcompile)).1, ?_⟩
  intro c hcompile
  have hbytes := allChars_code hcompile
  refine ⟨isAscii_or_quotesChar hcompile, Text.singleBytes c.code, Text.encodeBytes_eq_ok hbytes,
    Text.map_toNat_singleBytes hbytes, ?_⟩
  intro output houtput s' hwrite
  obtain ⟨hresult, hstate⟩ := eq_of_compilesTo (.written hsuffix hread hcompile houtput hwrite)
  have hstores : F.Stores (.ofString output) (Text.singleBytes c.code) s s' :=
    F.entry?_of_write hwrite
  exact ⟨hresult, hstate, hstores.holds⟩

/-- A file whose string holds a character that is not ASCII, with a line end of two characters. -/
def wideFile : List UInt8 := [80, 82, 73, 78, 84, 34, 233, 34, 13, 10]

/-- A tree that holds that file. -/
def wideTree : FileTree := FileTree.empty.put ("wide.tt" :: FileTree.working) (.file wideFile)

/-- The file is stored as code with the same character, which is one byte there as well. -/
theorem compileFile_eq_compile_wide :
    ∃ (t : FileTree) (code : List UInt8) (c : Compiled),
      c.code = "#include <stdio.h>\nint main(void)\x7b\nprintf(\"é\\n\");\nreturn 0;\n\x7d\n" ∧
      ((compileFile FileTree.fileSystem.disk {} ⟨.working, ["wide.tt"]⟩).run wideTree).1.result =
        .ok { c with outputPath := some (.ofString defaultOutput) } ∧
      ((compileFile FileTree.fileSystem.disk {} ⟨.working, ["wide.tt"]⟩).run wideTree).2 = t ∧
      code.map UInt8.toNat = c.code.toList.map Char.toNat ∧
      FileTree.fileSystem.Holds t (.ofString defaultOutput) code := by
  have hread : FileTree.fileSystem.read ⟨.working, ["wide.tt"]⟩ wideTree = .ok wideFile := by
    rfl
  have hsuffix : Path.suffix ⟨.working, ["wide.tt"]⟩ = CompileOptions.extension {} := by rfl
  obtain ⟨-, hok⟩ := compileFile_eq_compile hsuffix hread
  have hcompile : compile "wide.tt" (sourceText wideFile) = .ok ⟨"wide.tt",
      "#include <stdio.h>\nint main(void)\x7b\nprintf(\"é\\n\");\nreturn 0;\n\x7d\n",
      4, [], [], none⟩ := by cbv
  obtain ⟨-, code, -, hcode, hstored⟩ := hok _ hcompile
  have hwrite : FileTree.fileSystem.write (.ofString defaultOutput) code wideTree =
      .ok (wideTree.put ("out.c" :: FileTree.working) (.file code)) := by rfl
  obtain ⟨hresult, hstate, hholds⟩ := hstored defaultOutput rfl _ hwrite
  exact ⟨_, code, _, rfl, hresult, hstate, hcode, hholds⟩

/-! ## Failures -/

end PocketBasic

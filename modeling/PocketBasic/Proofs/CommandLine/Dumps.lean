import PocketBasic.Proofs.CommandLine.Runs
import PocketBasic.Proofs.Text.Quoted

/-!
# Token dumps are read back

A dump shows of a token what a reader of the program sees: its kind, its text, its line and its
column.  The name of a kind has no comma in it and a number has neither a colon nor a bracket, so
each part of a dump ends at the first such character behind it; the text is quoted, and ends where
its quote does (`Text.unquote_quoted`).  The texts that are not shown, those of a line end and of
the end of the input, are known from the kind.

Main statements: what a dump shows is read back from it (`Token.read_dump`), and the dump of a
text without a lexical fault is one printable line for each token, from which the tokens are known
(`CommandLine.dump_faithful`).
-/

namespace PocketBasic

/-! ## Parts of a text -/

namespace Text

/-- What stands in a text before the first separator, and what stands behind it. -/
def cutAt (separator : Char) (text : List Char) : List Char × List Char :=
  (text.takeWhile (· ≠ separator), (text.dropWhile (· ≠ separator)).drop 1)

theorem cutAt_append {separator : Char} {front : String} (h : AllChars (· ≠ separator) front)
    (behind : List Char) :
    cutAt separator (front.toList ++ separator :: behind) = (front.toList, behind) := by
  have hfront : ∀ c ∈ front.toList, decide (c ≠ separator) = true :=
    fun c hc => decide_eq_true (h c hc)
  have hbehind : Lexeme.NoneAhead (fun c => decide (c ≠ separator)) (separator :: behind) :=
    Lexeme.noneAhead_cons.mpr (by simp)
  rw [cutAt, Lexeme.takeWhile_run hfront hbehind, Lexeme.dropWhile_run hfront hbehind]
  rfl

end Text

/-! ## Reading a dump -/

/-- What a dump shows of a token. -/
def Token.shown (t : Token) : Kind × String × Int × Int :=
  (t.kind, t.text, t.location.line, t.location.column)

namespace Dump

/-- Reads a line and a column, with a colon between them and a bracket behind. -/
def readPlace (text : List Char) : Option (Int × Int) :=
  match (String.ofList (Text.cutAt ':' text).1).toInt?,
      (String.ofList (Text.cutAt ')' (Text.cutAt ':' text).2).1).toInt? with
  | some line, some column => some (line, column)
  | _, _ => none

/-- Reads what stands behind the name of a kind. -/
def readRest (kind : Kind) (rest : List Char) : Option (Kind × String × Int × Int) :=
  match kind with
  | .endOfInput => (readPlace rest).map fun place => (kind, "", place)
  | .newline => (readPlace rest).map fun place => (kind, "\n", place)
  | _ =>
    match Text.unquote rest with
    | none => none
    | some (text, behind) =>
      (readPlace (behind.drop ", ".toList.length)).map fun place => (kind, String.ofList text, place)

/-- Reads what a dump shows of a token. -/
def read (dump : String) : Option (Kind × String × Int × Int) :=
  let parts := Text.cutAt ',' (dump.toList.drop "Token(".toList.length)
  match Kind.ofName? (String.ofList parts.1) with
  | none => none
  | some kind => readRest kind (parts.2.drop 1)

end Dump

/-! ## Reading back -/

theorem Kind.ofName?_name (k : Kind) : Kind.ofName? k.name = some k := by
  have hall : ∀ k ∈ all, Kind.ofName? k.name = some k := by decide
  exact hall k k.mem_all

theorem Kind.allChars_name_ne_comma (k : Kind) : AllChars (· ≠ ',') k.name := by
  have hall : ∀ k ∈ all, AllChars (· ≠ ',') k.name := by decide
  exact hall k k.mem_all

namespace Dump

/-- The place of a token as a dump shows it, with the bracket behind. -/
def placeText (place : Location) : String :=
  toString place.line ++ ":" ++ toString place.column ++ ")"

theorem readPlace_placeText (place : Location) :
    readPlace (placeText place).toList = some (place.line, place.column) := by
  have hline : AllChars (· ≠ ':') (toString place.line) :=
    Text.allChars_toString_int (by decide) (by decide) _
  have hcolumn : AllChars (· ≠ ')') (toString place.column) :=
    Text.allChars_toString_int (by decide) (by decide) _
  have htext : (placeText place).toList =
      (toString place.line).toList ++ ':' :: ((toString place.column).toList ++ ')' :: []) := by
    simp [placeText]
  have hread (n : Int) : (String.ofList (toString n).toList).toInt? = some n := by
    rw [String.ofList_toList, Int.toString_eq_repr, Int.toInt?_repr]
  unfold readPlace
  rw [htext, Text.cutAt_append hline]
  dsimp only
  rw [Text.cutAt_append hcolumn, hread, hread]

/-- Behind the name of a kind, a dump is read by the rule for the kind. -/
theorem read_append (kind : Kind) (rest : String) :
    read ("Token(" ++ kind.name ++ ", " ++ rest) = readRest kind rest.toList := by
  have htext : ("Token(" ++ kind.name ++ ", " ++ rest).toList.drop "Token(".toList.length =
      kind.name.toList ++ ',' :: (' ' :: rest.toList) := by
    rw [String.append_assoc, String.append_assoc, String.toList_append, List.drop_left,
      String.toList_append, String.toList_append]
    rfl
  unfold read
  dsimp only
  rw [htext, Text.cutAt_append kind.allChars_name_ne_comma]
  dsimp only
  rw [String.ofList_toList, Kind.ofName?_name]
  rfl

/-- Behind a quoted text stand a comma and a place. -/
theorem unquote_append (text rest : String) :
    Text.unquote (Text.quote text ++ ", " ++ rest).toList =
      some (text.toList, (", " ++ rest).toList) := by
  rw [String.append_assoc, String.toList_append, Text.quote, String.toList_ofList,
    Text.unquote_quoted]

end Dump

/-- A dump begins in the same way for all tokens, and shows their texts if they are worth
showing. -/
theorem Token.dump_eq (t : Token) :
    t.dump = "Token(" ++ t.kind.name ++ ", " ++
      match t.kind with
      | .endOfInput | .newline => Dump.placeText t.location
      | _ => Text.quote t.text ++ ", " ++ Dump.placeText t.location := by
  obtain ⟨kind, text, place⟩ := t
  cases kind
  all_goals simp only [dump, Dump.placeText, String.append_assoc]

/-- What a dump shows of a token is read back from it. -/
theorem Token.read_dump {t : Token} (h : t.kind.Spells t.text) :
    Dump.read t.dump = some t.shown := by
  obtain ⟨kind, text, place⟩ := t
  rw [dump_eq, Dump.read_append]
  cases kind with
  | endOfInput =>
    obtain rfl : text = "" := h
    dsimp only [Dump.readRest]
    rw [Dump.readPlace_placeText]
    rfl
  | newline =>
    obtain rfl : text = "\n" := h
    dsimp only [Dump.readRest]
    rw [Dump.readPlace_placeText]
    rfl
  | number | identifier | string | keyword | operator =>
    dsimp only [Dump.readRest]
    rw [Dump.unquote_append]
    dsimp only
    rw [String.toList_append, List.drop_left, Dump.readPlace_placeText, String.ofList_toList]
    rfl

/-- Tokens with the same dumps show the same. -/
theorem Token.map_shown_of_map_dump {ts ts' : List Token} (h : ∀ t ∈ ts, t.kind.Spells t.text)
    (h' : ∀ t ∈ ts', t.kind.Spells t.text) (hdumps : ts.map dump = ts'.map dump) :
    ts.map shown = ts'.map shown := by
  have hread {ts : List Token} (h : ∀ t ∈ ts, t.kind.Spells t.text) :
      (ts.map dump).map Dump.read = (ts.map shown).map some := by
    rw [List.map_map, List.map_map]
    exact List.map_congr_left fun t ht => read_dump (h t ht)
  have hsome : (ts.map shown).map some = (ts'.map shown).map some := by
    rw [← hread h, ← hread h', hdumps]
  exact List.map_injective_iff.mpr (Option.some_injective _) hsome

/-! ## Dumps of a text -/

/-- The characters that end a line for a terminal, an editor or a program. -/
def Text.lineBreaks : List Char :=
  ['\n', '\r', '\x0b', '\x0c', '\x1c', '\x1d', '\x1e', '\x85', '\u2028', '\u2029']

section

-- the line separator stands behind some hundreds of intervals of the table
set_option maxRecDepth 4000

theorem Text.any_isPrintable_lineBreaks : lineBreaks.any isPrintable = false := by decide

end

namespace CommandLine

/-- What is printed of the tokens of a text. -/
def dumpOf (filename text : String) : String :=
  printedLines ((Source.ofString filename text).tokenize.tokens.map Token.dump)

theorem dumpOf_eq (filename text : String) :
    dumpOf filename text =
      unlines ((Source.ofString filename text).tokenize.tokens.map Token.dump) :=
  (printedLines_dump _).1

/-- From what is printed of two texts, their dumps are known. -/
theorem map_dump_of_dumpOf {filename text filename' text' : String}
    (h : dumpOf filename text = dumpOf filename' text') :
    (Source.ofString filename text).tokenize.tokens.map Token.dump =
      (Source.ofString filename' text').tokenize.tokens.map Token.dump := by
  rw [dumpOf_eq, dumpOf_eq] at h
  have hlines := congrArg (fun text => text.toList.splitOn '\n') h
  beta_reduce at hlines
  rw [splitOn_unlines (printedLines_dump _).2, splitOn_unlines (printedLines_dump _).2] at hlines
  exact List.map_injective_iff.mpr (fun _ _ => String.toList_inj.mp)
    (List.append_cancel_right hlines)

/-- Lines that are written have a line end each. -/
theorem count_unlines {lines : List String} (h : ∀ line ∈ lines, OneLine line) :
    (unlines lines).toList.count '\n' = lines.length := by
  induction lines with
  | nil => rfl
  | cons line lines ih =>
    have hline : line.toList.count '\n' = 0 :=
      List.count_eq_zero_of_not_mem (h line List.mem_cons_self)
    rw [unlines_cons, String.toList_append, String.toList_append, List.count_append,
      List.count_append, hline, ih fun line hline => h line (List.mem_cons_of_mem _ hline),
      List.length_cons, Nat.zero_add]
    exact Nat.add_comm 1 _

/-- What is printed of tokens is one line for each of them, of printable characters only. -/
structure IsDump (read : Source.Tokens) (output : String) : Prop where
  lines : output = unlines (read.tokens.map Token.dump)
  printable : ∀ t ∈ read.tokens, AllChars (Text.isPrintable · = true) t.dump
  unbroken : ∀ t ∈ read.tokens, ∀ c ∈ Text.lineBreaks, c ∉ t.dump.toList
  count : output.toList.count '\n' = read.source.produced + 1

/-- A text without a lexical fault is dumped in lines, one for each token that is counted and one
for the end of the input; they are what the command prints of a file with the text, and what they
show of the tokens is known from them. -/
theorem dump_faithful {filename text : String}
    (h : (Source.ofString filename text).tokenize.failure = none) :
    IsDump (Source.ofString filename text).tokenize (dumpOf filename text) ∧
    (∀ {σ ι : Type} (F : FileSystem σ ι) (s : σ) (job : Job) {bytes : List UInt8},
      job.path.suffix = sourceExtension → F.read job.path s = .ok bytes →
        toString job.path = filename → sourceText bytes = text →
          (printTokens F.disk job.path).run s = (⟨0, dumpOf filename text, ""⟩, s)) ∧
    ∀ {filename' text' : String},
      (Source.ofString filename' text').tokenize.failure = none →
        dumpOf filename text = dumpOf filename' text' →
          (Source.ofString filename text).tokenize.tokens.map Token.shown =
            (Source.ofString filename' text').tokenize.tokens.map Token.shown := by
  refine ⟨⟨dumpOf_eq filename text, fun t _ => t.allChars_dump, fun t _ c hc hmem => ?_, ?_⟩, ?_, ?_⟩
  · exact List.any_eq_false.mp Text.any_isPrintable_lineBreaks c hc (t.allChars_dump c hmem)
  · rw [dumpOf_eq, count_unlines (printedLines_dump _).2, List.length_map]
    exact Source.produced_tokenize h
  · rintro σ ι F s job bytes hsuffix hread rfl rfl
    obtain ⟨output, hrun, houtput⟩ := run_printTokens F s job
    have hnone : job.dumpFailure? F s = none := by
      unfold Job.dumpFailure?
      rw [if_pos hsuffix, hread]
      exact h
    rw [hrun, hnone, houtput bytes hsuffix hread]
    rfl
  · intro filename' text' _ hdump
    exact Token.map_shown_of_map_dump (fun _ => Source.spells_of_mem_tokens)
      (fun _ => Source.spells_of_mem_tokens) (map_dump_of_dumpOf hdump)

/-- A file whose string is an apostrophe. -/
def apostropheFile : List UInt8 := [80, 82, 73, 78, 84, 32, 34, 39, 34]

/-- A tree that holds that file. -/
def apostropheTree : FileTree :=
  FileTree.empty.put ("a.tt" :: FileTree.working) (.file apostropheFile)

/-- The dump of a file whose string is shown in the other quotes, and of a text with another blank
in the same place. -/
theorem dump_faithful_apostrophe :
    (printTokens FileTree.fileSystem.disk (.ofString "a.tt")).run apostropheTree =
        (⟨0, "Token(PRINT, 'PRINT', 1:1)\nToken(STRING, \"'\", 1:7)\nToken(NEWLINE, 1:10)\n" ++
          "Token(EOF, 2:1)\n", ""⟩, apostropheTree) ∧
      IsDump (Source.ofString "a.tt" "PRINT \"'\"").tokenize
        (dumpOf "a.tt" "PRINT \"'\"") ∧
      (Source.ofString "a.tt" "PRINT \"'\"").tokenize.tokens.map Token.shown =
        (Source.ofString "b.tt" "PRINT\t\"'\"").tokenize.tokens.map Token.shown := by
  have hclean : (Source.ofString "a.tt" "PRINT \"'\"").tokenize.failure = none ∧
      (Source.ofString "b.tt" "PRINT\t\"'\"").tokenize.failure = none := ⟨by cbv, by cbv⟩
  have hdump : dumpOf "a.tt" "PRINT \"'\"" = "Token(PRINT, 'PRINT', 1:1)\n" ++
        "Token(STRING, \"'\", 1:7)\nToken(NEWLINE, 1:10)\nToken(EOF, 2:1)\n" ∧
      dumpOf "b.tt" "PRINT\t\"'\"" = "Token(PRINT, 'PRINT', 1:1)\n" ++
        "Token(STRING, \"'\", 1:7)\nToken(NEWLINE, 1:10)\nToken(EOF, 2:1)\n" :=
    ⟨by cbv, by cbv⟩
  have hsuffix : (Path.ofString "a.tt").suffix = sourceExtension := by rfl
  have hread : FileTree.fileSystem.read (.ofString "a.tt") apostropheTree = .ok apostropheFile := by
    rfl
  have htext : sourceText apostropheFile = "PRINT \"'\"" := by decide
  obtain ⟨hlines, hrun, hshown⟩ := dump_faithful hclean.1
  have hprinted := hrun FileTree.fileSystem apostropheTree ⟨"a.tt", none, true, false⟩ hsuffix hread
    rfl htext
  rw [hdump.1] at hprinted
  exact ⟨hprinted, hlines, hshown hclean.2 (hdump.1.trans hdump.2.symm)⟩

end CommandLine
end PocketBasic

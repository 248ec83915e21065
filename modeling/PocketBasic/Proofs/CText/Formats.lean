import PocketBasic.Proofs.Decoding.Closed
import PocketBasic.Proofs.Translation.Kinds

/-!
# What C prints for the strings of a program

A string is copied into a call of `printf`, and two readers stand between that line and what is
printed.  The compiler of C reads a literal: a quote ends it, a backslash begins an escape, and the
characters that it stands for are a string only up to the first U+0000 among them.  Then `printf`
reads what is left as a format, in which a percent sign begins a conversion.

The language keeps quotes, backslashes and percent signs out of its strings, so the literal ends
where it should and no conversion is found.  It does not keep out U+0000, behind which nothing is
printed, not even the line end.

Main statement: the strings of an accepted source stand in its translation one line each, and such
a line prints its string and a line end exactly if there is no U+0000 in the string
(`prints_string_iff`).
-/

namespace PocketBasic

namespace CText

/-! ## Literals -/

/-- The character that a backslash and a character behind it stand for.  Escapes by number are
left out. -/
def escaped? : Char → Option Char
  | 'n' => some '\n'
  | 't' => some '\t'
  | 'r' => some '\r'
  | 'a' => some '\x07'
  | 'b' => some '\x08'
  | 'v' => some '\x0b'
  | 'f' => some '\x0c'
  | '\\' => some '\\'
  | '\'' => some '\''
  | '"' => some '"'
  | '?' => some '?'
  | _ => none

/-- The characters that a string literal stands for and the text behind it, given what stands
behind its opening quote.  A literal has to end on its line. -/
def literal? : List Char → Option (List Char × List Char)
  | [] | ['\\'] => none
  | '"' :: behind => some ([], behind)
  | '\\' :: c :: rest => do
    let d ← escaped? c
    let (value, behind) ← literal? rest
    return (d :: value, behind)
  | c :: rest => do
    if c = '\n' then none
    let (value, behind) ← literal? rest
    return (c :: value, behind)

/-- What the characters of a literal are as a string of a running program. -/
def terminated (value : List Char) : List Char := value.takeWhile (· ≠ '\x00')

/-! ## Formats -/

/-- The letters that a conversion ends with. -/
def conversionLetters : List Char := "diouxXfFeEgGaAcspn%".toList

/-- A part of a format. -/
inductive Directive where
  | plain (c : Char)
  /-- A percent sign, and what stands behind it up to the letter of the conversion. -/
  | conversion (options letter : List Char)
  deriving DecidableEq, Repr

/-- The parts of a format. -/
def directives : List Char → List Directive
  | [] => []
  | c :: rest =>
    if c = '%' then
      let behind := rest.dropWhile (· ∉ conversionLetters)
      .conversion (rest.takeWhile (· ∉ conversionLetters)) (behind.take 1) ::
        directives (behind.drop 1)
    else .plain c :: directives rest
termination_by format => format.length
decreasing_by
  · have hle := List.length_dropWhile_le (· ∉ conversionLetters) rest
    rw [List.length_drop, List.length_cons]
    omega
  · exact Nat.lt_succ_self _

/-- The character that a directive prints, if it does so without an argument. -/
def Directive.char? : Directive → Option Char
  | plain c => some c
  | conversion [] ['%'] => some '%'
  | conversion _ _ => none

/-- What a statement prints that hands a literal to `printf` and nothing else.  There is no answer
if it is no such statement, and if its format asks for an argument. -/
def printed? (statement : List Char) : Option (List Char) := do
  let rest ← "printf(\"".toList.isPrefixOf? statement
  let (format, behind) ← literal? rest
  if behind ≠ ");".toList then none
  (directives (terminated format)).mapM Directive.char?

/-! ## What is printed for a string -/

variable {text cs : List Char}

theorem terminated_eq_self_iff : terminated cs = cs ↔ '\x00' ∉ cs := by
  rw [terminated, List.takeWhile_eq_self_iff]
  simp only [decide_eq_true_eq]
  exact ⟨fun h hmem => h _ hmem rfl, fun h c hc hzero => h (hzero ▸ hc)⟩

/-- A character that may stand in a string stands for itself in a literal. -/
theorem literal?_cons {c : Char} (h : c ∉ Lexeme.unquotable) {rest value behind : List Char}
    (hrest : literal? rest = some (value, behind)) :
    literal? (c :: rest) = some (c :: value, behind) := by
  have hquote : c ≠ '"' := by
    rintro rfl
    exact h (by decide)
  have hescape : c ≠ '\\' := by
    rintro rfl
    exact h (by decide)
  have hend : c ≠ '\n' := by
    rintro rfl
    exact h (by decide)
  rw [literal?, hrest, if_neg hend]
  · rfl
  · exact fun heq _ => hescape heq
  · exact hquote
  · exact fun d _ heq _ => hescape heq

/-- The literal of a string with a line end stands for the string and the line end. -/
theorem literal?_string (h : ∀ c ∈ text, c ∉ Lexeme.unquotable) :
    literal? (text ++ "\\n\");".toList) = some (text ++ ['\n'], ");".toList) := by
  induction text with
  | nil => rfl
  | cons c text ih =>
    obtain ⟨hc, htext⟩ := List.forall_mem_cons.mp h
    exact literal?_cons hc (ih htext)

/-- A format without percent signs asks for nothing and prints its characters. -/
theorem mapM_directives (h : '%' ∉ cs) : (directives cs).mapM Directive.char? = some cs := by
  induction cs with
  | nil =>
    rw [directives]
    rfl
  | cons c cs ih =>
    obtain ⟨hc, hcs⟩ := not_or.mp (mt List.mem_cons.mpr h)
    rw [directives, if_neg fun heq => hc heq.symm, List.mapM_cons, ih hcs]
    rfl

/-- What the line of a string prints: the string and a line end, up to the first U+0000. -/
theorem printed?_printString {text : String} (h : ∀ c ∈ text.toList, c ∉ Lexeme.unquotable) :
    printed? (Line.printString text).text.toList = some (terminated (text.toList ++ ['\n'])) := by
  have hline : (Line.printString text).text.toList =
      "printf(\"".toList ++ (text.toList ++ "\\n\");".toList) := by
    show ("printf(\"" ++ text ++ "\\n\");").toList = _
    rw [String.toList_append, String.toList_append, List.append_assoc]
  have hpercent : '%' ∉ terminated (text.toList ++ ['\n']) := by
    intro hmem
    rcases List.mem_append.mp (List.takeWhile_subset _ hmem) with hmem | hmem
    · exact h '%' hmem (by decide)
    · exact absurd hmem (by decide)
  rw [printed?, List.isPrefixOf?_eq_some_iff_append_eq.mpr hline.symm]
  show (literal? _ >>= _) = _
  rw [literal?_string h]
  exact mapM_directives hpercent

end CText

/-! ## The strings of a program -/

/-- The string that a line prints. -/
def Line.string? : Line → Option String
  | printString text => some text
  | _ => none

theorem Kind.isContent_string : Kind.string.IsContent where
  ne_newline := Kind.noConfusion
  ne_endOfInput := Kind.noConfusion
  ne_keyword _ := Kind.noConfusion

theorem CText.IsPhrase.filter_string {ts : List Token} (h : CText.IsPhrase ts) :
    (ts.filter fun t => t.kind = .string) = [] :=
  h.filter_kind rfl fun _ => Kind.noConfusion

/-- The line of a simple statement prints the string of the statement, if it has one. -/
theorem Form.filterMap_string? (form : Form) :
    form.asLines.filterMap Line.string? =
      (form.tokens.filter fun t => t.kind = .string).map Token.text := by
  cases form with
  | printString word text =>
    rw [tokens, word.filter_cons Kind.noConfusion, List.filter_cons_of_pos (by simp [text.2])]
    rfl
  | printValue word value =>
    rw [tokens, word.filter_cons Kind.noConfusion, (CText.isPhrase_expression value).filter_string]
    rfl
  | label word name | jump word name | input word name =>
    rw [tokens, word.filter_cons Kind.noConfusion, name.filter_cons Kind.noConfusion]
    rfl
  | assign word name equals value =>
    rw [tokens, word.filter_cons Kind.noConfusion, name.filter_cons Kind.noConfusion,
      equals.filter_cons Kind.noConfusion, (CText.isPhrase_expression value).filter_string]
    rfl

/-- The lines of a program print its strings, one line for each of them. -/
theorem Program.filterMap_string? (p : Program) :
    p.asLines.filterMap Line.string? =
      (p.tokens.filter fun t => t.kind = .string).map Token.text := by
  have hcontent := Kind.isContent_string
  induction p using Program.induction with
  | nil =>
    rw [Program.asLines, Program.tokens]
    rfl
  | simple form ends later ih =>
    rw [Program.asLines, Program.tokens, List.filterMap_append, List.filter_append,
      List.filter_append, hcontent.filter_lineEnds, List.append_nil, List.map_append,
      form.filterMap_string?, ih]
  | block b head body foot later ihbody ihlater =>
    rw [Program.asLines, Program.tokens, List.filterMap_cons_none rfl, List.filterMap_append,
      List.filterMap_cons_none rfl, List.filter_append, List.filter_append, List.filter_append,
      hcontent.filter_head, (CText.isPhrase_comparison _).filter_string, List.nil_append,
      hcontent.filter_foot, List.append_nil, List.map_append, ihbody, ihlater]

/-- The lines of a listing print the strings of its program. -/
theorem Program.filterMap_string?_listing (p : Program) :
    p.listingAsLines.filterMap Line.string? =
      (p.tokens.filter fun t => t.kind = .string).map Token.text := by
  have hdeclarations : (p.targets.eraseDups.map Line.declaration).filterMap Line.string? = [] :=
    List.filterMap_eq_nil_iff.mpr fun line hline => by
      obtain ⟨name, -, rfl⟩ := List.mem_map.mp hline
      rfl
  rw [listingAsLines, List.filterMap_append, List.filterMap_append, hdeclarations,
    p.filterMap_string?, List.nil_append]
  exact List.append_nil _

/-- The strings of an accepted source stand in its translation in their order, one line each.
Such a line asks for no argument and prints what stands before the first U+0000 of its string and
of the line end, which is all of that exactly if there is no U+0000 in the string. -/
theorem prints_string_iff {filename text : String} {c : Compiled}
    (h : compile filename text = .ok c) :
    c.code = unlines (preamble ++ (linesOf c.code).map Line.text) ∧
      (linesOf c.code).filterMap Line.string? =
        ((Source.ofString filename text).tokenize.tokens.filter
          fun t => t.kind = .string).map Token.text ∧
      ∀ t ∈ (Source.ofString filename text).tokenize.tokens, t.kind = .string →
        CText.printed? (Line.printString t.text).text.toList =
          some (CText.terminated (t.text.toList ++ ['\n'])) ∧
        (CText.printed? (Line.printString t.text).text.toList = some (t.text.toList ++ ['\n']) ↔
          '\x00' ∉ t.text.toList) := by
  obtain ⟨tree⟩ := nonempty_tree_of_compile h
  have hwritten := writtenAs_of_compile h tree
  refine ⟨hwritten.code_eq_lines, ?_, fun t ht hk => ?_⟩
  · rw [hwritten.lines_eq, Program.filterMap_string?_listing,
      tree.filter_tokens Kind.isContent_string]
  · have hprinted : CText.printed? (Line.printString t.text).text.toList =
        some (CText.terminated (t.text.toList ++ ['\n'])) := by
      have hstring := Source.spells_of_mem_tokens ht
      rw [hk] at hstring
      exact CText.printed?_printString fun c hc => Lexeme.isStringChar_iff.mp (hstring c hc)
    refine ⟨hprinted, ?_⟩
    rw [hprinted, Option.some_inj, CText.terminated_eq_self_iff, List.mem_append, not_or]
    exact and_iff_left (by decide)

/-- A string with U+0000 in it, of which C prints the first character only. -/
theorem prints_string_iff_two_strings :
    ∃ c t, compile "zero.tt" "PRINT \"ab\"\nPRINT \"a\x00b\"\n" = .ok c ∧
      (linesOf c.code).filterMap Line.string? = ["ab", "a\x00b"] ∧
      t ∈ (Source.ofString "zero.tt" "PRINT \"ab\"\nPRINT \"a\x00b\"\n").tokenize.tokens ∧
      t.kind = .string ∧ t.text = "a\x00b" ∧
      CText.printed? (Line.printString t.text).text.toList = some ['a'] ∧
      CText.printed? (Line.printString t.text).text.toList ≠ some (t.text.toList ++ ['\n']) := by
  have hc : compile "zero.tt" "PRINT \"ab\"\nPRINT \"a\x00b\"\n" = .ok ⟨"zero.tt",
      "#include <stdio.h>\nint main(void)\x7b\nprintf(\"ab\\n\");\nprintf(\"a\x00b\\n\");\n" ++
        "return 0;\n\x7d\n", 7, [], [], none⟩ := by
    cbv
  have htoken : (Source.ofString "zero.tt"
      "PRINT \"ab\"\nPRINT \"a\x00b\"\n").tokenize.tokens[4]? =
        some ⟨.string, "a\x00b", "zero.tt", 2, 7⟩ := by
    cbv
  have hmem := List.mem_of_getElem? htoken
  obtain ⟨-, hlines, hprinted⟩ := prints_string_iff hc
  obtain ⟨hprints, hiff⟩ := hprinted _ hmem rfl
  exact ⟨_, _, hc, by cbv, hmem, rfl, rfl, hprints, fun hall => hiff.mp hall (by decide)⟩

end PocketBasic

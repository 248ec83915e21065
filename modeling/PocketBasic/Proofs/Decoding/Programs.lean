import PocketBasic.Proofs.Decoding.Lines
import PocketBasic.Proofs.Layout
import PocketBasic.Proofs.TokenSeparation

/-!
# Programs are read back from their lines

The lines of a translation tell its program, layout apart.  Most lines are a statement each
(`Line.words`).  A closing brace ends the block that was opened last, so the blocks that are open
tell whether it is an `ENDIF` or an `ENDWHILE`, unless it is the one behind the three lines of an
`INPUT`; these begin with a line that begins nothing else.  Declarations are no statements, and
the last statement stands before `return`.  That is how `Line.program` reads lines.

The other side is the program with one line end behind each line (`Program.condensed`), which is
what its tokens are condensed to (`condenseBehind_program`).

Main statement: the lines of a program are read as the condensed program, whatever blocks are
open and whatever stands behind (`Line.program_asLines`).
-/

namespace PocketBasic

/-! ## Condensed programs -/

/-- The tokens before the statements of a block, without the line ends. -/
def BlockHead.line {b : Block} (head : BlockHead b) : List Token :=
  head.word.1 :: (head.test.tokens ++ [head.opener.1])

/-- The tokens of a program with one line end for each run of them. -/
def Program.condensed : Program → List Token
  | [] => []
  | .simple form ends :: rest => form.tokens ++ ends.first.1 :: condensed rest
  | .block _ head body foot :: rest =>
    head.line ++ head.ends.first.1 ::
      (condensed body ++ foot.closer.1 :: foot.ends.first.1 :: condensed rest)

/-- Tokens that are no line ends are kept. -/
theorem condenseBehind_of_ne {ts : List Token} (h : ∀ t ∈ ts, t.kind ≠ .newline) (hne : ts ≠ [])
    (lineStart : Bool) (rest : List Token) :
    condenseBehind lineStart (ts ++ rest) = ts ++ condenseBehind false rest := by
  induction ts generalizing lineStart with
  | nil => exact absurd rfl hne
  | cons t ts ih =>
    rw [List.cons_append, condenseBehind, if_neg (h t List.mem_cons_self), List.cons_append]
    cases ts with
    | nil => rfl
    | cons u us =>
      rw [ih (fun t ht => h t (List.mem_cons_of_mem _ ht)) (List.cons_ne_nil _ _)]

theorem condenseBehind_newlines (blanks : List (Terminal .newline)) (rest : List Token) :
    condenseBehind true (leafTokens blanks ++ rest) = condenseBehind true rest := by
  induction blanks with
  | nil => rfl
  | cons blank blanks ih =>
    show condenseBehind true (blank.1 :: (leafTokens blanks ++ rest)) = _
    rw [condenseBehind, if_pos blank.2, if_pos rfl, ih]

theorem condenseBehind_lineEnds (ends : LineEnds) (rest : List Token) :
    condenseBehind false (ends.tokens ++ rest) = ends.first.1 :: condenseBehind true rest := by
  rw [LineEnds.tokens, List.cons_append, condenseBehind, if_pos ends.first.2,
    if_neg Bool.false_ne_true, condenseBehind_newlines]

theorem CText.IsPhrase.kind_ne_newline {ts : List Token} (h : CText.IsPhrase ts) :
    ∀ t ∈ ts, t.kind ≠ .newline := by
  intro t ht hk
  rcases h.kinds t ht with hoperand | ⟨o, hoperator, -⟩
  · rw [hk] at hoperand
    cases hoperand
  · rw [hk] at hoperator
    cases hoperator

theorem Form.kind_ne_newline (form : Form) : ∀ t ∈ form.tokens, t.kind ≠ .newline := by
  cases form with
  | printString word text =>
    simpa [tokens] using ⟨word.kind_ne Kind.noConfusion, text.kind_ne Kind.noConfusion⟩
  | printValue word value =>
    have hvalue := (CText.isPhrase_expression value).kind_ne_newline
    simpa [tokens] using ⟨word.kind_ne Kind.noConfusion, hvalue⟩
  | label word name | jump word name | input word name =>
    simpa [tokens] using ⟨word.kind_ne Kind.noConfusion, name.kind_ne Kind.noConfusion⟩
  | assign word name equals value =>
    have hvalue := (CText.isPhrase_expression value).kind_ne_newline
    simpa [tokens] using ⟨word.kind_ne Kind.noConfusion, name.kind_ne Kind.noConfusion,
      equals.kind_ne Kind.noConfusion, hvalue⟩

theorem BlockHead.kind_ne_newline {b : Block} (head : BlockHead b) :
    ∀ t ∈ head.line, t.kind ≠ .newline := by
  have htest := (CText.isPhrase_comparison head.test).kind_ne_newline
  intro t ht
  rcases List.mem_cons.mp ht with rfl | ht
  · exact head.word.kind_ne Kind.noConfusion
  · rcases List.mem_append.mp ht with ht | ht
    · exact htest t ht
    · rw [List.mem_singleton.mp ht]
      exact head.opener.kind_ne Kind.noConfusion

/-- To condense the tokens of a program is to leave one line end behind each line. -/
theorem condenseBehind_program (p : Program) (rest : List Token) :
    condenseBehind true (p.tokens ++ rest) = p.condensed ++ condenseBehind true rest := by
  induction p using Program.induction generalizing rest with
  | nil =>
    rw [Program.tokens, Program.condensed]
    rfl
  | simple form ends later ih =>
    obtain ⟨t, ts, hts, -⟩ := form.exists_tokens_eq_cons
    have hne : form.tokens ≠ [] := hts ▸ List.cons_ne_nil t ts
    rw [Program.tokens, Program.condensed, List.append_assoc, List.append_assoc,
      condenseBehind_of_ne form.kind_ne_newline hne, condenseBehind_lineEnds, ih,
      List.append_assoc, List.cons_append]
  | block b head body foot later ihbody ihlater =>
    have hhead : head.tokens = head.line ++ head.ends.tokens := by
      rw [BlockHead.tokens, BlockHead.line, List.cons_append, List.append_assoc,
        List.singleton_append]
    have hcloser : ∀ t ∈ [foot.closer.1], t.kind ≠ .newline := by
      simpa using foot.closer.kind_ne Kind.noConfusion
    have hfoot : condenseBehind true (foot.tokens ++ (later.tokens ++ rest)) =
        foot.closer.1 :: foot.ends.first.1 :: (later.condensed ++ condenseBehind true rest) := by
      rw [BlockEnd.tokens, ← List.singleton_append (x := foot.closer.1), List.append_assoc,
        condenseBehind_of_ne hcloser (List.cons_ne_nil _ _), condenseBehind_lineEnds, ihlater,
        List.singleton_append]
    rw [Program.tokens, Program.condensed, hhead]
    simp only [List.append_assoc, List.cons_append]
    rw [condenseBehind_of_ne head.kind_ne_newline (List.cons_ne_nil _ _),
      condenseBehind_lineEnds, ihbody, hfoot]

/-! ## Lines of a program -/

/-- The lines that a simple statement is translated to. -/
def Form.asLines : Form → List Line
  | printString _ text => [.printString text.1.text]
  | printValue _ value => [.printValue (joinTexts value.tokens)]
  | label _ name => [.label name.1.text]
  | jump _ name => [.jump name.1.text]
  | assign _ name _ value => [.assign name.1.text (joinTexts value.tokens)]
  | input _ name => [.input name.1.text, .assign name.1.text "0", .skip, .closing]

/-- The lines that a program is translated to. -/
def Program.asLines : Program → List Line
  | [] => []
  | .simple form _ :: rest => form.asLines ++ asLines rest
  | .block b head body _ :: rest =>
    .opening b (joinTexts head.test.tokens) :: (asLines body ++ .closing :: asLines rest)

theorem Program.lines_eq (p : Program) : p.lines = p.asLines.map Line.text := by
  induction p using Program.induction with
  | nil =>
    rw [Program.lines, Program.asLines]
    rfl
  | simple form ends rest ih =>
    have hform : form.lines = form.asLines.map Line.text := by
      cases form with
      | input word name =>
        have hzero : name.1.text ++ " = 0;" = (Line.assign name.1.text "0").text := by
          show _ = name.1.text ++ " = " ++ "0" ++ ";"
          rw [String.append_assoc, String.append_assoc]
          rfl
        rw [Form.lines, hzero]
        rfl
      | _ => rfl
    rw [Program.lines, Program.asLines, List.map_append, ih, hform]
  | block b head body foot rest ihbody ihrest =>
    rw [Program.lines, Program.asLines, List.map_cons, List.map_append, List.map_cons, ihbody,
      ihrest]
    rfl

theorem Terminal.isWord (name : Terminal .identifier) (h : name.1.kind.Spells name.1.text) :
    IsWord name.1.text.toList := by
  rw [name.2] at h
  exact h.1

/-- The lines of a statement whose tokens are spelled as their kinds are well formed. -/
theorem Form.wellFormed (form : Form) (hspells : ∀ t ∈ form.tokens, t.kind.Spells t.text) :
    ∀ line ∈ form.asLines, line.WellFormed := by
  cases form with
  | printString word text =>
    have htext := hspells text.1 (by simp [tokens])
    rw [text.2] at htext
    simpa [asLines, Line.WellFormed] using fun c hc => Lexeme.isStringChar_iff.mp (htext c hc)
  | printValue word value =>
    have hvalue := (CText.isPhrase_expression value).isPlain fun t ht =>
      hspells t (List.mem_cons_of_mem _ ht)
    simpa [asLines, Line.WellFormed] using hvalue
  | label word name | jump word name =>
    have hname := name.isWord (hspells name.1 (by simp [tokens]))
    simpa [asLines, Line.WellFormed] using hname
  | assign word name equals value =>
    have hname := name.isWord (hspells name.1 (by simp [tokens]))
    have hvalue := (CText.isPhrase_expression value).isPlain fun t ht =>
      hspells t (by simp [tokens, ht])
    simpa [asLines, Line.WellFormed] using ⟨hname, hvalue⟩
  | input word name =>
    have hname := name.isWord (hspells name.1 (by simp [tokens]))
    have hzero : IsPlain "0" := by
      intro c hc
      obtain rfl : c = '0' := List.mem_singleton.mp hc
      decide
    simpa [asLines, Line.WellFormed] using ⟨hname, hzero⟩

theorem Program.wellFormed (p : Program) (hspells : ∀ t ∈ p.tokens, t.kind.Spells t.text) :
    ∀ line ∈ p.asLines, line.WellFormed := by
  induction p using Program.induction with
  | nil =>
    rw [Program.asLines]
    exact List.forall_mem_nil _
  | simple form ends rest ih =>
    rw [Program.tokens] at hspells
    rw [Program.asLines]
    intro line hline
    rcases List.mem_append.mp hline with hline | hline
    · exact form.wellFormed (fun t ht => hspells t (by simp [ht])) line hline
    · exact ih (fun t ht => hspells t (by simp [ht])) line hline
  | block b head body foot rest ihbody ihrest =>
    rw [Program.tokens] at hspells
    rw [Program.asLines]
    have htest : IsPlain (joinTexts head.test.tokens) :=
      (CText.isPhrase_comparison head.test).isPlain fun t ht =>
        hspells t (by simp [BlockHead.tokens, ht])
    intro line hline
    rcases List.mem_cons.mp hline with rfl | hline
    · exact htest
    · rcases List.mem_append.mp hline with hline | hline
      · exact ihbody (fun t ht => hspells t (by simp [ht])) line hline
      · rcases List.mem_cons.mp hline with rfl | hline
        · trivial
        · exact ihrest (fun t ht => hspells t (by simp [ht])) line hline

/-! ## Reading back -/

/-- The kind and the text of a keyword. -/
def Keyword.asWord (k : Keyword) : Kind × String := (.keyword k, k.text)

/-- The kind and the text of a line end. -/
def lineEnd : Kind × String := (.newline, "\n")

namespace Line

/-- The statement, or the beginning of a block, that is translated to lines with this one
first. -/
def words : Line → List (Kind × String)
  | printString text => [Keyword.asWord .PRINT, (.string, text)]
  | printValue value => Keyword.asWord .PRINT :: wordsOf value
  | label name => [Keyword.asWord .LABEL, (.identifier, name)]
  | jump name => [Keyword.asWord .GOTO, (.identifier, name)]
  | assign name value =>
    Keyword.asWord .LET :: (.identifier, name) :: (.operator .assign, "=") :: wordsOf value
  | opening b test => b.word.asWord :: (wordsOf test ++ [b.opener.asWord])
  | input name => [Keyword.asWord .INPUT, (.identifier, name)]
  | declaration _ | closing | skip | finish => []

/-- The program that is translated to the lines, given the blocks that are open. -/
def program : List Block → List Line → List (Kind × String)
  | _, [] | _, finish :: _ => []
  | bs, declaration _ :: rest => program bs rest
  | bs, input name :: assign _ _ :: skip :: closing :: rest =>
    (input name).words ++ lineEnd :: program bs rest
  | bs, opening b test :: rest => (opening b test).words ++ lineEnd :: program (b :: bs) rest
  | b :: bs, closing :: rest => b.closer.asWord :: lineEnd :: program bs rest
  | bs, line :: rest => line.words ++ lineEnd :: program bs rest

theorem program_declarations (bs : List Block) (names : List String) (rest : List Line) :
    program bs (names.map declaration ++ rest) = program bs rest := by
  induction names with
  | nil => rfl
  | cons name names ih =>
    rw [List.map_cons, List.cons_append, program, ih]

end Line

theorem Terminal.word_of_keyword {k : Keyword} (t : Terminal (.keyword k))
    (h : t.1.kind.Spells t.1.text) : t.1.word = k.asWord := by
  rw [t.2] at h
  exact Prod.ext t.2 h

theorem Terminal.word_of_name (t : Terminal .identifier) :
    t.1.word = (.identifier, t.1.text) := Prod.ext t.2 rfl

theorem LineEnds.word_first (ends : LineEnds) (h : ∀ t ∈ ends.tokens, t.kind.Spells t.text) :
    ends.first.1.word = lineEnd := by
  have hfirst := h ends.first.1 List.mem_cons_self
  rw [ends.first.2] at hfirst
  exact Prod.ext ends.first.2 hfirst

/-- A simple statement is read back from its lines. -/
theorem Line.program_form (form : Form) (hspells : ∀ t ∈ form.tokens, t.kind.Spells t.text)
    (bs : List Block) (rest : List Line) :
    Line.program bs (form.asLines ++ rest) =
      form.tokens.map Token.word ++ lineEnd :: Line.program bs rest := by
  cases form with
  | printString word text =>
    have hword := word.word_of_keyword (hspells word.1 List.mem_cons_self)
    have htext : text.1.word = (.string, text.1.text) := Prod.ext text.2 rfl
    rw [Form.tokens, List.map_cons, List.map_singleton, hword, htext]
    rfl
  | printValue word value =>
    have hword := word.word_of_keyword (hspells word.1 List.mem_cons_self)
    have hvalue := (CText.isPhrase_expression value).wordsOf_joinTexts fun t ht =>
      hspells t (List.mem_cons_of_mem _ ht)
    rw [Form.tokens, List.map_cons, hword, ← hvalue]
    rfl
  | label word name | jump word name | input word name =>
    have hword := word.word_of_keyword (hspells word.1 List.mem_cons_self)
    rw [Form.tokens, List.map_cons, List.map_singleton, hword, name.word_of_name]
    rfl
  | assign word name equals value =>
    have hword := word.word_of_keyword (hspells word.1 List.mem_cons_self)
    have hvalue := (CText.isPhrase_expression value).wordsOf_joinTexts fun t ht =>
      hspells t (by simp [Form.tokens, ht])
    have hequals : equals.1.word = (.operator .assign, "=") := by
      have hspelled := hspells equals.1 (by simp [Form.tokens])
      rw [equals.2] at hspelled
      exact Prod.ext equals.2 hspelled
    rw [Form.tokens, List.map_cons, List.map_cons, List.map_cons, hword, name.word_of_name,
      hequals, ← hvalue]
    rfl

/-- The beginning of a block is read back from its line. -/
theorem BlockHead.words_opening {b : Block} (head : BlockHead b)
    (hspells : ∀ t ∈ head.tokens, t.kind.Spells t.text) :
    (Line.opening b (joinTexts head.test.tokens)).words = head.line.map Token.word := by
  have hword := head.word.word_of_keyword (hspells head.word.1 List.mem_cons_self)
  have htest := (CText.isPhrase_comparison head.test).wordsOf_joinTexts fun t ht =>
    hspells t (by simp [BlockHead.tokens, ht])
  have hopener := head.opener.word_of_keyword (hspells head.opener.1 (by simp [BlockHead.tokens]))
  rw [Line.words, BlockHead.line, List.map_cons, List.map_append, List.map_singleton, hword, htest,
    hopener]

/-- A program is read back from its lines. -/
theorem Line.program_asLines (p : Program) (hspells : ∀ t ∈ p.tokens, t.kind.Spells t.text)
    (bs : List Block) (rest : List Line) :
    Line.program bs (p.asLines ++ rest) =
      p.condensed.map Token.word ++ Line.program bs rest := by
  induction p using Program.induction generalizing bs rest with
  | nil =>
    rw [Program.asLines, Program.condensed]
    rfl
  | simple form ends later ih =>
    rw [Program.tokens] at hspells
    have hends := ends.word_first fun t ht => hspells t (by simp [ht])
    rw [Program.asLines, Program.condensed, List.append_assoc,
      Line.program_form form fun t ht => hspells t (by simp [ht]),
      ih fun t ht => hspells t (by simp [ht]), List.map_append, List.map_cons, hends,
      List.append_assoc, List.cons_append]
  | block b head body foot later ihbody ihlater =>
    rw [Program.tokens] at hspells
    have hopening := head.words_opening fun t ht => hspells t (by simp [ht])
    have hends := head.ends.word_first fun t ht => hspells t (by simp [BlockHead.tokens, ht])
    have hcloser := foot.closer.word_of_keyword
      (hspells foot.closer.1 (by simp [BlockEnd.tokens]))
    have hfoot := foot.ends.word_first fun t ht => hspells t (by simp [BlockEnd.tokens, ht])
    have hbody := ihbody (fun t ht => hspells t (by simp [ht]))
    have hlater := ihlater (fun t ht => hspells t (by simp [ht]))
    -- the brace behind the body closes this block, whatever stands in the body
    calc Line.program bs (Program.asLines (.block b head body foot :: later) ++ rest)
        = (Line.opening b (joinTexts head.test.tokens)).words ++ lineEnd ::
            Line.program (b :: bs) (body.asLines ++ .closing :: (later.asLines ++ rest)) := by
          rw [Program.asLines, List.cons_append, List.append_assoc, List.cons_append, Line.program]
      _ = head.line.map Token.word ++ lineEnd :: (body.condensed.map Token.word ++
            b.closer.asWord :: lineEnd :: (later.condensed.map Token.word ++
              Line.program bs rest)) := by
          rw [hopening, hbody, Line.program, hlater]
      _ = (Program.condensed (.block b head body foot :: later)).map Token.word ++
            Line.program bs rest := by
          rw [Program.condensed]
          simp only [List.map_append, List.map_cons, hends, hcloser, hfoot, List.append_assoc,
            List.cons_append]

end PocketBasic

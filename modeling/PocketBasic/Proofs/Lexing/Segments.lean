import Mathlib.Data.List.DropRight
import PocketBasic.Proofs.Lexing.Lexemes

/-!
# Segments of a text

A source goes through its text in segments.  A segment is what one call moves over: blanks,
then a comment if there is one, and then a lexeme.  A comment goes to the end of its line, so
the lexeme behind it is the line end.

Where a segment stands decides all else that a call answers.  The place of a token is told by
the text before it: its line by the line ends in that text, and its column by the characters
behind the last of them (`placeBehind`).  So the cursor knows nothing that the text before it
does not tell (`Cursor.behind`).

Main statements: a call that stands before a segment answers as the lexeme of the segment is
read, and moves over the segment (`Source.next_of_segment`); a text of whole lines is empty or
begins with a segment (`exists_segment`), so that it can be cut into segments
(`WholeLines.exists_cutInto`).
-/

namespace PocketBasic

/-! ## Places -/

/-- The characters behind the last line end of a text. -/
def lastLine (before : List Char) : List Char := before.rtakeWhile (· ≠ '\n')

/-- The place behind a text.  The number of the line is one more than the line ends in the text,
and the column is one more than the characters behind the last of them. -/
def placeBehind (filename : String) (before : List Char) : Location where
  filename := filename
  line := before.count '\n' + 1
  column := (lastLine before).length + 1

/-- The line that the place between two texts stands in. -/
def lineAround (before behind : List Char) : String :=
  String.ofList (lastLine before ++ behind.takeWhile (· ≠ '\n'))

@[simp] theorem lastLine_nil : lastLine [] = [] := rfl

@[simp] theorem lastLine_concat_newline (before : List Char) : lastLine (before ++ ['\n']) = [] := by
  rw [lastLine, List.rtakeWhile_concat_neg]
  decide

theorem lastLine_concat (before : List Char) {c : Char} (hc : c ≠ '\n') :
    lastLine (before ++ [c]) = lastLine before ++ [c] := by
  rw [lastLine, List.rtakeWhile_concat_pos, lastLine]
  simpa using hc

/-- Text on one line is added to the last line. -/
theorem lastLine_append (before : List Char) {run : List Char} (h : '\n' ∉ run) :
    lastLine (before ++ run) = lastLine before ++ run := by
  induction run generalizing before with
  | nil => rw [List.append_nil, List.append_nil]
  | cons c run ih =>
    rw [List.mem_cons, not_or] at h
    obtain ⟨hc, hrun⟩ := h
    rw [List.append_cons, ih (before ++ [c]) hrun, lastLine_concat before (Ne.symm hc),
      List.append_assoc, List.singleton_append]

namespace Cursor

/-- The cursor between two texts. -/
def behind (before rest : List Char) : Cursor :=
  ⟨before.count '\n' + 1, (lastLine before).reverse, rest⟩

@[simp] theorem rest_behind (before rest : List Char) : (behind before rest).rest = rest := rfl

theorem lineText_behind (before rest : List Char) :
    (behind before rest).lineText = lineAround before rest := by
  rw [lineText, behind, List.reverse_reverse, lineAround]

theorem step_behind (before : List Char) (c : Char) (rest : List Char) :
    (behind before (c :: rest)).step = behind (before ++ [c]) rest := by
  by_cases hc : c = '\n'
  · subst hc
    simp [step, behind, List.count_append]
  · simp [step, behind, hc, lastLine_concat before hc, List.count_append]

theorem advance_behind (before run rest : List Char) :
    advance run.length (behind before (run ++ rest)) = behind (before ++ run) rest := by
  induction run generalizing before with
  | nil => rw [List.append_nil]; rfl
  | cons c run ih =>
    rw [List.length_cons, advance, List.cons_append, step_behind, ih, List.append_assoc,
      List.singleton_append]

/-- A run of characters that pass a test is skipped. -/
theorem skipWhile_behind (before : List Char) {p : Char → Bool} {run rest : List Char}
    (hrun : ∀ c ∈ run, p c) (h : Lexeme.NoneAhead p rest) :
    (behind before (run ++ rest)).skipWhile p = behind (before ++ run) rest := by
  rw [skipWhile, rest_behind, Lexeme.takeWhile_run hrun h, advance_behind]

end Cursor

theorem Source.locate_behind (s : Source) (before rest : List Char) :
    s.locate (.behind before rest) = placeBehind s.filename before := by
  simp [locate, Cursor.behind, Cursor.column, placeBehind]

/-! ## Segments -/

/-- Blanks, a comment that goes to the end of its line, and a lexeme with what it is read as. -/
structure Segment where
  blanks : List Char
  comment : List Char
  lexeme : List Char
  outcome : Except LexicalFault (Kind × String)
  blanks_blank : ∀ c ∈ blanks, c = ' ' ∨ c = '\t' ∨ c = '\r'
  comment_shape : comment = [] ∨ (∃ body, comment = '#' :: body ∧ '\n' ∉ body) ∧ lexeme = ['\n']

namespace Segment

/-- What stands before the lexeme. -/
def layout (g : Segment) : List Char := g.blanks ++ g.comment

/-- All characters of a segment. -/
def chars (g : Segment) : List Char := g.layout ++ g.lexeme

/-- The answer about a segment that stands between two texts.  A token stands where its lexeme
does, and a fault there or behind the lexeme; with the fault comes the line that the lexeme
begins in. -/
def answer (filename : String) (before : List Char) (g : Segment) (behind : List Char) :
    Except Diagnostic Token :=
  match g.outcome with
  | .ok (kind, text) => .ok ⟨kind, text, placeBehind filename (before ++ g.layout)⟩
  | .error fault =>
    let place := if fault.isBehind then before ++ g.chars else before ++ g.layout
    .error ⟨.lexical fault, some (placeBehind filename place),
      some (lineAround (before ++ g.layout) (g.lexeme ++ behind))⟩

/-- Whether the lexeme of a segment is read as a token, as a number. -/
def tokenCount (g : Segment) : Nat := if g.outcome.isOk then 1 else 0

variable {g : Segment} {before behind : List Char}

theorem length_chars_pos (h : Lexeme.ReadAs g.lexeme behind g.outcome) : 0 < g.chars.length := by
  obtain ⟨c, rest, hlexeme, -⟩ := h.exists_eq_cons
  rw [chars, hlexeme, List.length_append, List.length_cons]
  omega

end Segment

variable {g : Segment} {before behind : List Char}

/-- The layout of a segment is skipped. -/
theorem Cursor.skipLayout_behind (before : List Char)
    (h : Lexeme.ReadAs g.lexeme behind g.outcome) :
    (Cursor.behind before (g.chars ++ behind)).skipLayout =
      .behind (before ++ g.layout) (g.lexeme ++ behind) := by
  obtain ⟨c, tail, hlexeme, hblank, hhash⟩ := h.exists_eq_cons
  have hblanks : ∀ c ∈ g.blanks, Lexeme.isBlank c := fun c hc =>
    Lexeme.isBlank_iff.mpr (g.blanks_blank c hc)
  rw [skipLayout, Segment.chars, Segment.layout, List.append_assoc, List.append_assoc]
  rcases g.comment_shape with hnil | ⟨⟨body, hcomment, hbody⟩, hend⟩
  · have hahead : Lexeme.NoneAhead Lexeme.isBlank (g.lexeme ++ behind) := by
      rw [hlexeme]
      exact Lexeme.noneAhead_cons.mpr hblank
    have hnext : (Cursor.behind (before ++ g.blanks) (g.lexeme ++ behind)).next? ≠ some '#' := by
      rw [hlexeme]
      exact fun hc => hhash (Option.some.inj hc)
    rw [hnil, List.nil_append, List.append_nil, skipWhile_behind before hblanks hahead, skipComment,
      if_neg hnext]
  · have hahead : Lexeme.NoneAhead Lexeme.isBlank (g.comment ++ (g.lexeme ++ behind)) := by
      rw [hcomment]
      exact Lexeme.noneAhead_cons.mpr rfl
    have hnext : (Cursor.behind (before ++ g.blanks)
        (g.comment ++ (g.lexeme ++ behind))).next? = some '#' := by
      rw [hcomment]
      rfl
    have hrun : ∀ c ∈ g.comment, decide (c ≠ '\n') = true := by
      intro c hc
      refine decide_eq_true fun hnewline => ?_
      rw [hcomment, hnewline] at hc
      rcases List.mem_cons.mp hc with hc | hc
      · cases hc
      · exact hbody hc
    have hstop : Lexeme.NoneAhead (· ≠ '\n') (g.lexeme ++ behind) := by
      rw [hend]
      exact Lexeme.noneAhead_cons.mpr (by decide)
    rw [skipWhile_behind before hblanks hahead, skipComment, if_pos hnext,
      skipWhile_behind _ hrun hstop, List.append_assoc]

/-- A call that stands before a segment answers as its lexeme is read, and moves over it. -/
theorem Source.next_of_segment {s : Source} (hs : s.cursor = .behind before (g.chars ++ behind))
    (h : Lexeme.ReadAs g.lexeme behind g.outcome) :
    s.next = (g.answer s.filename before behind,
      { s with
        cursor := .behind (before ++ g.chars) behind
        produced := s.produced + g.tokenCount }) := by
  have hskip := Cursor.skipLayout_behind before h
  obtain ⟨c, rest, hcons, hread⟩ := Lexeme.read_of_readAs h
  have hstop : Cursor.advance g.lexeme.length (.behind (before ++ g.layout) (c :: rest)) =
      .behind (before ++ g.chars) behind := by
    rw [← hcons, Cursor.advance_behind, Segment.chars, List.append_assoc]
  rw [next, hs, hskip, Segment.answer, Segment.tokenCount, hcons]
  simp only [Cursor.rest_behind, hread, hstop]
  cases g.outcome with
  | ok token =>
    simp only [locate_behind]
    rfl
  | error fault =>
    simp only [Cursor.lineText_behind]
    cases fault.isBehind
    all_goals
      simp only [if_true, Bool.false_eq_true, if_false, locate_behind]
      rfl

/-- A call at the end of the text says so and moves nowhere. -/
theorem Source.next_of_nil {s : Source} (hs : s.cursor = .behind before []) :
    s.next = (.ok ⟨.endOfInput, "", placeBehind s.filename before⟩, s) := by
  have hskip : s.cursor.skipLayout = s.cursor :=
    Cursor.skipLayout_of_rest_nil (by rw [hs, Cursor.rest_behind])
  rw [next, hskip]
  simp only [hs, Cursor.rest_behind, locate_behind]
  rw [← hs]

/-! ## Whole lines -/

/-- A text that does not end inside a line. -/
def WholeLines (cs : List Char) : Prop := ∀ c ∈ cs.getLast?, c = '\n'

theorem wholeLines_concat (cs : List Char) : WholeLines (cs ++ ['\n']) := by
  simp [WholeLines]

theorem WholeLines.of_append {cs ds : List Char} (h : WholeLines (cs ++ ds)) : WholeLines ds := by
  intro c hc
  refine h c ?_
  rw [List.getLast?_append, Option.mem_def.mp hc]
  rfl

/-- A run that leaves out line ends does not reach the end of whole lines. -/
theorem WholeLines.ne_nil {p : Char → Bool} {run rest : List Char} (h : WholeLines (run ++ rest))
    (hne : run ++ rest ≠ []) (hrun : ∀ c ∈ run, p c) (hp : p '\n' = false) : rest ≠ [] := by
  rintro rfl
  rw [List.append_nil] at h hne
  have hlast := h _ (List.getLast?_eq_getLast_of_ne_nil hne)
  have hmem := hrun _ (List.getLast_mem hne)
  rw [hlast, hp] at hmem
  cases hmem

/-- Whole lines begin with a segment. -/
theorem exists_segment {cs : List Char} (h : WholeLines cs) (hne : cs ≠ []) :
    ∃ (g : Segment) (behind : List Char),
      cs = g.chars ++ behind ∧ Lexeme.ReadAs g.lexeme behind g.outcome := by
  obtain ⟨blanks, rest, rfl, hblanks, hstop⟩ := Lexeme.exists_run Lexeme.isBlank cs
  have hblank : ∀ c ∈ blanks, c = ' ' ∨ c = '\t' ∨ c = '\r' := fun c hc =>
    Lexeme.isBlank_iff.mp (hblanks c hc)
  obtain ⟨c, tail, rfl⟩ := List.exists_cons_of_ne_nil (h.ne_nil hne hblanks rfl)
  have hc := Lexeme.noneAhead_cons.mp hstop
  by_cases hhash : c = '#'
  · subst hhash
    obtain ⟨body, rest, rfl, hbody, hend⟩ := Lexeme.exists_run (· ≠ '\n') tail
    have hrun : ∀ c ∈ '#' :: body, decide (c ≠ '\n') = true :=
      List.forall_mem_cons.mpr ⟨by decide, hbody⟩
    obtain ⟨d, rest, rfl⟩ := List.exists_cons_of_ne_nil
      (h.of_append.ne_nil (List.cons_ne_nil _ _) hrun (by decide))
    obtain rfl : d = '\n' := by simpa using Lexeme.noneAhead_cons.mp hend
    have hnewline : '\n' ∉ body := fun hmem => by simpa using hbody _ hmem
    refine ⟨⟨blanks, '#' :: body, ['\n'], _, hblank, .inr ⟨⟨body, rfl, hnewline⟩, rfl⟩⟩, rest, ?_,
      .newline rest⟩
    simp only [Segment.chars, Segment.layout, List.append_assoc, List.cons_append, List.nil_append]
  · obtain ⟨lexeme, behind, outcome, hcons, hread⟩ := Lexeme.exists_readAs hc hhash tail
    refine ⟨⟨blanks, [], lexeme, outcome, hblank, .inl rfl⟩, behind, ?_, hread⟩
    simp only [Segment.chars, Segment.layout, List.append_assoc, List.nil_append, hcons]

/-! ## Texts as lists of segments -/

/-- A text is cut into segments: the lexeme of each is read as the segment says, where it stands
before the segments behind it. -/
inductive CutInto : List Char → List Segment → Prop where
  | nil : CutInto [] []
  | cons {g : Segment} {behind : List Char} {gs : List Segment}
    (h : Lexeme.ReadAs g.lexeme behind g.outcome) (hbehind : CutInto behind gs) :
    CutInto (g.chars ++ behind) (g :: gs)

namespace CutInto

variable {text : List Char} {gs : List Segment}

/-- The segments are the text. -/
theorem flatMap_chars (h : CutInto text gs) : gs.flatMap Segment.chars = text := by
  induction h with
  | nil => rfl
  | cons h hbehind ih => rw [List.flatMap_cons, ih]

/-- The lexeme of every segment is read as the segment says, before the segments behind it. -/
theorem readAs (h : CutInto text gs) {n : Nat} (hn : n < gs.length) :
    Lexeme.ReadAs gs[n].lexeme ((gs.drop (n + 1)).flatMap Segment.chars) gs[n].outcome := by
  induction h generalizing n with
  | nil => cases hn
  | cons h hbehind ih =>
    cases n with
    | zero =>
      rw [List.drop_succ_cons, List.drop_zero, hbehind.flatMap_chars]
      exact h
    | succ n => exact ih (Nat.lt_of_succ_lt_succ hn)

end CutInto

/-- Whole lines can be cut into segments. -/
theorem WholeLines.exists_cutInto {text : List Char} (h : WholeLines text) :
    ∃ gs, CutInto text gs := by
  by_cases hne : text = []
  · exact ⟨[], hne ▸ .nil⟩
  · obtain ⟨g, behind, htext, hread⟩ := exists_segment h hne
    have hbehind : WholeLines behind := WholeLines.of_append (htext ▸ h)
    have hlt : behind.length < text.length := by
      have hpos := Segment.length_chars_pos hread
      rw [htext, List.length_append]
      omega
    obtain ⟨gs, hgs⟩ := hbehind.exists_cutInto
    exact ⟨g :: gs, htext ▸ .cons hread hgs⟩
termination_by text.length

end PocketBasic

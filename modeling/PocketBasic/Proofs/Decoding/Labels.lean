import PocketBasic.Proofs.Decoding.Closed

/-!
# What the labels of a translation stand before

A label of C belongs to the statement behind it, and several labels may belong to one statement.
In a program a `LABEL` is a statement by itself, so it may be the last one of a block.  Its line is
then followed by the brace that closes the block, and C finds no statement there.  Everywhere else
a statement follows, at the end of the program the `return`.

Main statement: the labels of an accepted source that have a closing brace behind them are those
behind which nothing but labels stands in their block, and all others have a statement behind them
(`stands_before_closing_iff`).
-/

namespace PocketBasic

namespace Line

/-- Whether a line begins a statement.  A label begins none by itself, and neither does a
declaration. -/
def beginsStatement : Line → Bool
  | declaration _ | label _ | closing => false
  | _ => true

/-- What stands behind the labels that some lines begin with. -/
def labelled? : List Line → Option Line
  | label _ :: lines => labelled? lines
  | lines => lines.head?

/-- The labels with a closing brace behind them and behind the labels that follow. -/
def strayLabels : List Line → List String
  | [] => []
  | line :: lines =>
    (if labelled? lines = some .closing then line.label?.toList else []) ++ strayLabels lines

end Line

/-- The labels that a statement declares, if it is nothing but a label. -/
def Statement.label? : Statement → Option String
  | .simple (.label _ name) _ => some name.1.text
  | _ => none

/-- The labels at the end of a program, behind which nothing but labels stands. -/
def Program.lastLabels : Program → List String
  | [] => []
  | s :: rest =>
    (if rest.all (·.label?.isSome) then s.label?.toList else []) ++ lastLabels rest

/-- The labels behind which nothing but labels stands in the block around them. -/
def Program.blockEndLabels : Program → List String
  | [] => []
  | .simple _ _ :: rest => blockEndLabels rest
  | .block _ _ body _ :: rest => blockEndLabels body ++ lastLabels body ++ blockEndLabels rest

namespace Line

variable {lines lines' : List Line} {name : String}

theorem labelled?_cons_of_ne {line : Line} (h : line.label? = none) :
    labelled? (line :: lines) = some line := by
  cases line with
  | label name => cases h
  | _ => rfl

/-- Lines that are no labels add none. -/
theorem strayLabels_append (h : ∀ line ∈ lines, line.label? = none) :
    strayLabels (lines ++ lines') = strayLabels lines' := by
  induction lines with
  | nil => rfl
  | cons line lines ih =>
    obtain ⟨hline, hlines⟩ := List.forall_mem_cons.mp h
    rw [List.cons_append, strayLabels, hline, Option.toList_none, ite_self, List.nil_append,
      ih hlines]

theorem mem_strayLabels_label {other : String} :
    name ∈ strayLabels (label other :: lines) ↔
      labelled? lines = some .closing ∧ other = name ∨ name ∈ strayLabels lines := by
  rw [strayLabels, List.mem_append, List.mem_ite_nil_right, Option.mem_toList, label?,
    Option.some_inj]

theorem label_mem_of_mem_strayLabels (h : name ∈ strayLabels lines) : .label name ∈ lines := by
  induction lines with
  | nil => cases h
  | cons line lines ih =>
    rw [strayLabels] at h
    rcases List.mem_append.mp h with h | h
    · cases line with
      | label other =>
        obtain rfl := List.mem_singleton.mp (List.mem_ite_nil_right.mp h).2
        exact List.mem_cons_self
      | _ => cases (List.mem_ite_nil_right.mp h).2
    · exact List.mem_cons_of_mem _ (ih h)

/-- A label that stands once is a stray one exactly if a closing brace stands behind it. -/
theorem mem_strayLabels_iff {before behind : List Line}
    (h : (before ++ label name :: behind).count (.label name) ≤ 1) :
    name ∈ strayLabels (before ++ label name :: behind) ↔ labelled? behind = some .closing := by
  induction before with
  | nil =>
    have hbehind : name ∉ strayLabels behind := fun hmem => by
      have hcount := List.count_pos_iff.mpr (label_mem_of_mem_strayLabels hmem)
      rw [List.nil_append, List.count_cons_self] at h
      omega
    rw [List.nil_append, mem_strayLabels_label, or_iff_left hbehind, and_iff_left rfl]
  | cons line before ih =>
    rw [List.cons_append, List.count_cons] at h
    have hne : line ≠ .label name := by
      rintro rfl
      have hmem : Line.label name ∈ before ++ label name :: behind :=
        List.mem_append_right _ List.mem_cons_self
      have hcount := List.count_pos_iff.mpr hmem
      rw [beq_self_eq_true, if_pos rfl] at h
      omega
    have hline : name ∉ line.label?.toList := by
      intro hmem
      cases line with
      | label other => exact hne (congrArg _ (List.mem_singleton.mp hmem).symm)
      | _ => cases hmem
    rw [List.cons_append, strayLabels, List.mem_append, List.mem_ite_nil_right, ih (by omega)]
    exact or_iff_right fun h => hline h.2

/-- Behind labels, something stands if not all lines are labels. -/
theorem exists_labelled? (h : ∃ line ∈ lines, line.label? = none) :
    ∃ next ∈ lines, labelled? lines = some next ∧ next.label? = none := by
  induction lines with
  | nil =>
    obtain ⟨line, hline, -⟩ := h
    cases hline
  | cons line lines ih =>
    cases hlabel : line.label? with
    | none => exact ⟨line, List.mem_cons_self, labelled?_cons_of_ne hlabel, hlabel⟩
    | some name =>
      obtain ⟨other, hother, hnone⟩ := h
      have hlater : other ∈ lines := by
        rcases List.mem_cons.mp hother with rfl | hother
        · rw [hlabel] at hnone
          cases hnone
        · exact hother
      obtain ⟨next, hnext, hlabelled, hnone⟩ := ih ⟨other, hlater, hnone⟩
      refine ⟨next, List.mem_cons_of_mem _ hnext, ?_, hnone⟩
      cases line with
      | label name => exact hlabelled
      | _ => cases hlabel

end Line

/-! ## The labels in the lines of a program -/

section Program

variable {p : Program} {rest : List Line} {name : String}

/-- A simple statement is a label, or its lines have none among them and do not begin with a
closing brace. -/
theorem Form.label_cases (form : Form) (ends : LineEnds) :
    (∃ name, (Statement.simple form ends).label? = some name ∧ form.asLines = [.label name]) ∨
      (Statement.simple form ends).label? = none ∧ (∀ line ∈ form.asLines, line.label? = none) ∧
        ∃ line lines, form.asLines = line :: lines ∧ line ≠ .closing := by
  cases form with
  | label word name => exact .inl ⟨_, rfl, rfl⟩
  | _ => exact .inr ⟨rfl, by simp [asLines, Line.label?], _, _, rfl, Line.noConfusion⟩

theorem Program.mem_lastLabels_cons {statement : Statement} :
    name ∈ Program.lastLabels (statement :: p) ↔
      (p.all (·.label?.isSome)) = true ∧ statement.label? = some name ∨ name ∈ p.lastLabels := by
  rw [Program.lastLabels, List.mem_append, List.mem_ite_nil_right, Option.mem_toList]

/-- A closing brace stands behind the labels at the front of some lines only if these begin with
nothing but labels. -/
theorem Program.labelled?_asLines :
    Line.labelled? (p.asLines ++ rest) = some .closing ↔
      (p.all (·.label?.isSome)) = true ∧ Line.labelled? rest = some .closing := by
  induction p using Program.induction with
  | nil =>
    rw [Program.asLines, List.all_nil]
    exact (and_iff_right rfl).symm
  | simple form ends later ih =>
    rw [Program.asLines, List.all_cons, Bool.and_eq_true, List.append_assoc, and_assoc, ← ih]
    rcases form.label_cases ends with
      ⟨other, hlabel, hlines⟩ | ⟨hlabel, hnone, line, lines, hlines, hne⟩
    · rw [hlabel, hlines]
      exact (and_iff_right rfl).symm
    · have hline := hnone line (hlines ▸ List.mem_cons_self)
      rw [hlabel, hlines, List.cons_append, Line.labelled?_cons_of_ne hline, Option.some_inj]
      exact iff_of_false hne fun h => Bool.false_ne_true h.1
  | block b head body foot later ihbody ihlater =>
    rw [Program.asLines, List.all_cons, List.cons_append, Line.labelled?_cons_of_ne rfl,
      Option.some_inj]
    exact iff_of_false Line.noConfusion fun h => Bool.false_ne_true h.1

/-- The stray labels in the lines of a program are those at the ends of its blocks, and those at its
own end if a closing brace follows. -/
theorem Program.mem_strayLabels_asLines :
    name ∈ Line.strayLabels (p.asLines ++ rest) ↔
      name ∈ p.blockEndLabels ∨ (Line.labelled? rest = some .closing ∧ name ∈ p.lastLabels) ∨
        name ∈ Line.strayLabels rest := by
  induction p using Program.induction generalizing rest with
  | nil =>
    rw [Program.asLines, Program.blockEndLabels, Program.lastLabels]
    simp
  | simple form ends later ih =>
    rw [Program.asLines, Program.blockEndLabels, Program.mem_lastLabels_cons, List.append_assoc]
    rcases form.label_cases ends with ⟨other, hlabel, hlines⟩ | ⟨hlabel, hnone, -⟩
    · rw [hlines, List.singleton_append, Line.mem_strayLabels_label, Program.labelled?_asLines, ih,
        hlabel, Option.some_inj]
      tauto
    · rw [Line.strayLabels_append hnone, ih, hlabel]
      tauto
  | block b head body foot later ihbody ihlater =>
    have hopening : ∀ line ∈ [Line.opening b (joinTexts head.test.tokens)], line.label? = none := by
      simp [Line.label?]
    have hclosing : ∀ line ∈ [Line.closing], line.label? = none := by
      simp [Line.label?]
    rw [Program.asLines, Program.blockEndLabels, Program.mem_lastLabels_cons,
      ← List.singleton_append, List.append_assoc, Line.strayLabels_append hopening,
      List.append_assoc, ihbody, List.cons_append, ← List.singleton_append (x := Line.closing),
      Line.strayLabels_append hclosing, ihlater]
    have hbehind : Line.labelled? ([.closing] ++ (later.asLines ++ rest)) = some .closing := rfl
    have hblock : (Statement.block b head body foot).label? = none := rfl
    simp only [hbehind, hblock, true_and, List.mem_append, reduceCtorEq, and_false, false_or]
    tauto

/-- A label in a listing stands among the lines of its program, and behind these stand the two last
lines. -/
theorem Program.exists_behind_label {before behind : List Line}
    (h : p.listingAsLines = before ++ .label name :: behind) :
    ∃ front later, p.asLines = front ++ .label name :: later ∧
      behind = later ++ [.finish, .closing] := by
  have hdeclarations : Line.label name ∉ p.targets.eraseDups.map Line.declaration := by simp
  have hlast : Line.label name ∉ [Line.finish, .closing] := by simp
  have hbody : ∃ front, p.asLines ++ [.finish, .closing] = front ++ .label name :: behind := by
    rcases List.append_eq_append_iff.mp h with ⟨front, -, hfront⟩ | ⟨front, hfront, hbehind⟩
    · exact ⟨front, hfront⟩
    · cases front with
      | nil => exact ⟨[], hbehind.symm⟩
      | cons line front =>
        obtain ⟨rfl, -⟩ := List.cons.inj hbehind
        exact absurd (hfront ▸ List.mem_append_right _ List.mem_cons_self) hdeclarations
  obtain ⟨front, hfront⟩ := hbody
  rcases List.append_eq_append_iff.mp hfront with ⟨more, -, hmore⟩ | ⟨more, hlines, hmore⟩
  · exact absurd (hmore ▸ List.mem_append_right _ List.mem_cons_self) hlast
  · cases more with
    | nil =>
      rw [List.nil_append] at hmore
      exact absurd (hmore ▸ List.mem_cons_self) hlast
    | cons line later =>
      obtain ⟨rfl, rfl⟩ := List.cons.inj hmore
      exact ⟨front, later, hlines, rfl⟩

/-- The stray labels in a listing are those at the ends of blocks. -/
theorem Program.mem_strayLabels_listing :
    name ∈ Line.strayLabels p.listingAsLines ↔ name ∈ p.blockEndLabels := by
  have hdeclarations : ∀ line ∈ p.targets.eraseDups.map Line.declaration, line.label? = none := by
    simp [Line.label?]
  have hlast : Line.labelled? [.finish, .closing] = some .finish := rfl
  have hnone : Line.strayLabels [.finish, .closing] = [] := rfl
  rw [listingAsLines, Line.strayLabels_append hdeclarations, Program.mem_strayLabels_asLines, hlast,
    hnone]
  simp

end Program

/-- Behind a label of the translation of an accepted source, and behind the labels that follow,
stands a line that begins a statement, or a closing brace.  It is the brace exactly if nothing but
labels stands behind the label in the block around it. -/
theorem stands_before_closing_iff {filename text : String} {c : Compiled}
    (h : compile filename text = .ok c) :
    Nonempty (Source.ofString filename text).Tree ∧
      ∀ tree : (Source.ofString filename text).Tree,
        c.code = unlines (preamble ++ (linesOf c.code).map Line.text) ∧
        ∀ before name behind, linesOf c.code = before ++ .label name :: behind →
          ∃ next, Line.labelled? behind = some next ∧
            (next = .closing ↔ name ∈ tree.program.blockEndLabels) ∧
            (next.beginsStatement = true ↔ name ∉ tree.program.blockEndLabels) := by
  refine ⟨nonempty_tree_of_compile h, fun tree => ?_⟩
  have hwritten := writtenAs_of_compile h tree
  refine ⟨hwritten.code_eq_lines, fun before name behind hlines => ?_⟩
  rw [hwritten.lines_eq] at hlines
  -- a label stands once, so its name tells which line it is
  have hcount : (before ++ .label name :: behind).count (.label name) ≤ 1 := by
    rw [← hlines, Program.count_label]
    exact List.nodup_iff_count_le_one.mp hwritten.namesKept.labelsDistinct name
  have hstray : Line.labelled? behind = some .closing ↔ name ∈ tree.program.blockEndLabels := by
    rw [← Line.mem_strayLabels_iff hcount, ← hlines, Program.mem_strayLabels_listing]
  obtain ⟨front, later, hprogram, rfl⟩ := Program.exists_behind_label hlines
  have hfinish : ∃ line ∈ later ++ [Line.finish, .closing], line.label? = none :=
    ⟨.finish, List.mem_append_right _ List.mem_cons_self, rfl⟩
  obtain ⟨next, hmem, hnext, hnone⟩ := Line.exists_labelled? hfinish
  rw [hnext, Option.some_inj] at hstray
  refine ⟨next, hnext, hstray, ?_⟩
  rw [← hstray]
  have hdeclaration : ∀ v, next ≠ .declaration v := by
    rintro v rfl
    rcases List.mem_append.mp hmem with hmem | hmem
    · refine tree.program.declaration_not_mem v (hprogram ▸ ?_)
      exact List.mem_append_right _ (List.mem_cons_of_mem _ hmem)
    · simp at hmem
  cases next with
  | declaration v => exact absurd rfl (hdeclaration v)
  | label other => cases hnone
  | closing => simp [Line.beginsStatement]
  | _ => simp [Line.beginsStatement]

/-- A source with two labels at the end of a block, one before the block and one at its own end. -/
def labelsText : String := "LABEL a\nIF 1 < 2 THEN\nLABEL b\nLABEL c\nENDIF\nLABEL d"

/-- The lines of its translation. -/
def labelsLines : List Line :=
  [.label "a", .opening .conditional "1<2", .label "b", .label "c", .closing, .label "d", .finish,
    .closing]

/-- Only the labels at the end of the block stand before its brace. -/
theorem stands_before_closing_iff_four_labels :
    ∃ c, compile "ends.tt" labelsText = .ok c ∧ linesOf c.code = labelsLines ∧
      ∃ tree : (Source.ofString "ends.tt" labelsText).Tree,
        "b" ∈ tree.program.blockEndLabels ∧ "c" ∈ tree.program.blockEndLabels ∧
        "a" ∉ tree.program.blockEndLabels ∧ "d" ∉ tree.program.blockEndLabels := by
  obtain ⟨c, hc, hlines⟩ :
      ∃ c, compile "ends.tt" labelsText = .ok c ∧ linesOf c.code = labelsLines :=
    ⟨⟨"ends.tt", "#include <stdio.h>\nint main(void)\x7b\na:\nif(1<2)\x7b\nb:\nc:\n\x7d\nd:\n" ++
      "return 0;\n\x7d\n", 20, [], ["a", "b", "c", "d"], none⟩, by cbv, by cbv⟩
  obtain ⟨⟨tree⟩, htree⟩ := stands_before_closing_iff hc
  obtain ⟨-, hlabels⟩ := htree tree
  rw [hlines] at hlabels
  obtain ⟨behindA, hA, -, hbeginsA⟩ := hlabels [] "a" _ rfl
  obtain ⟨behindB, hB, hclosingB, -⟩ := hlabels [_, _] "b" _ rfl
  obtain ⟨behindC, hC, hclosingC, -⟩ := hlabels [_, _, _] "c" _ rfl
  obtain ⟨behindD, hD, -, hbeginsD⟩ := hlabels [_, _, _, _, _] "d" _ rfl
  refine ⟨c, hc, hlines, tree, hclosingB.mp ?_, hclosingC.mp ?_, hbeginsA.mp ?_, hbeginsD.mp ?_⟩
  · exact (Option.some.inj hB).symm
  · exact (Option.some.inj hC).symm
  · exact congrArg Line.beginsStatement (Option.some.inj hA).symm
  · exact congrArg Line.beginsStatement (Option.some.inj hD).symm

end PocketBasic

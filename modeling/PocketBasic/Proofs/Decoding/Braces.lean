import PocketBasic.Proofs.Decoding.Programs

/-!
# The braces of a translation

A line that ends in an opening brace opens a block of C, and a line that is a closing brace closes
one.  No other line does either, whatever stands in its string (`braceChange_text`).

Main statement: the lines of a program are balanced (`Program.balanced_asLines`): as many blocks are
closed as are opened, and up to no line have more been closed than opened.
-/

namespace PocketBasic

/-- By how many blocks more than before are open behind a line. -/
def braceChange (line : String) : Int :=
  if line.toList.getLast? = some '\x7b' then 1 else if line = "\x7d" then -1 else 0

/-- How many blocks more are open behind some lines than before them. -/
def depth (lines : List String) : Int := (lines.map braceChange).sum

@[simp] theorem depth_nil : depth [] = 0 := rfl

@[simp] theorem depth_cons (line : String) (lines : List String) :
    depth (line :: lines) = braceChange line + depth lines := by
  rw [depth, List.map_cons, List.sum_cons, depth]

@[simp] theorem depth_append (lines lines' : List String) :
    depth (lines ++ lines') = depth lines + depth lines' := by
  rw [depth, List.map_append, List.sum_append, depth, depth]

/-! ## Single lines -/

theorem getLast?_append (text : String) {tail : String} {c : Char}
    (h : tail.toList.getLast? = some c) : (text ++ tail).toList.getLast? = some c := by
  rw [String.toList_append, List.getLast?_append, h]
  rfl

theorem braceChange_of_opening {line : String} (h : line.toList.getLast? = some '\x7b') :
    braceChange line = 1 := if_pos h

theorem braceChange_of_other {line : String} {c : Char} (h : line.toList.getLast? = some c)
    (hopening : c ≠ '\x7b') (hclosing : c ≠ '\x7d') : braceChange line = 0 := by
  have hne : line ≠ "\x7d" := by
    rintro rfl
    exact hclosing (Option.some.inj h).symm
  rw [braceChange, h, if_neg fun heq => hopening (Option.some.inj heq), if_neg hne]

/-- By how many blocks more are open behind a line. -/
def Line.braceChange : Line → Int
  | opening _ _ | input _ => 1
  | closing => -1
  | _ => 0

/-- The last character of a line tells its kind from here on. -/
theorem Line.braceChange_text (line : Line) :
    PocketBasic.braceChange line.text = line.braceChange := by
  cases line with
  | closing | skip | finish => decide
  | opening b test => exact braceChange_of_opening (getLast?_append _ rfl)
  | input name => exact braceChange_of_opening (getLast?_append _ rfl)
  | label name => exact braceChange_of_other (getLast?_append _ rfl) (by decide) (by decide)
  | declaration name | jump name =>
    exact braceChange_of_other (getLast?_append _ rfl) (by decide) (by decide)
  | printString text =>
    exact braceChange_of_other (getLast?_append _ rfl) (by decide) (by decide)
  | printValue value | assign name value =>
    exact braceChange_of_other (getLast?_append _ rfl) (by decide) (by decide)

/-! ## Balanced lines -/

/-- As many blocks are closed as are opened, and up to no line have more been closed than
opened. -/
structure Balanced (lines : List String) : Prop where
  depth_eq : depth lines = 0
  depth_nonneg (before behind : List String) (h : lines = before ++ behind) : 0 ≤ depth before

namespace Balanced

variable {lines lines' : List String} {line line' : String}

theorem nil : Balanced [] where
  depth_eq := rfl
  depth_nonneg before behind h := by
    rw [(List.append_eq_nil_iff.mp h.symm).1]
    rfl

theorem append (h : Balanced lines) (h' : Balanced lines') : Balanced (lines ++ lines') where
  depth_eq := by rw [depth_append, h.depth_eq, h'.depth_eq, Int.add_zero]
  depth_nonneg before behind heq := by
    rcases List.append_eq_append_iff.mp heq with ⟨front, rfl, hlines'⟩ | ⟨front, hlines, -⟩
    · rw [depth_append, h.depth_eq, Int.zero_add]
      exact h'.depth_nonneg front behind hlines'
    · exact h.depth_nonneg before front hlines

/-- A line that neither opens nor closes a block. -/
theorem single (h : braceChange line = 0) : Balanced [line] where
  depth_eq := by rw [depth_cons, h, depth_nil, Int.add_zero]
  depth_nonneg before behind heq := by
    cases before with
    | nil => exact le_of_eq depth_nil.symm
    | cons l before =>
      obtain ⟨rfl, hnil⟩ := List.cons.inj heq
      rw [depth_cons, h, (List.append_eq_nil_iff.mp hnil.symm).1, depth_nil, Int.add_zero]

/-- Balanced lines between a line that opens a block and one that closes it. -/
theorem enclose (h : Balanced lines) (hopening : braceChange line = 1)
    (hclosing : braceChange line' = -1) : Balanced (line :: (lines ++ [line'])) where
  depth_eq := by
    rw [depth_cons, depth_append, depth_cons, depth_nil, hopening, hclosing, h.depth_eq]
    decide
  depth_nonneg before behind heq := by
    cases before with
    | nil => exact le_of_eq depth_nil.symm
    | cons l before =>
      obtain ⟨rfl, hrest⟩ := List.cons.inj heq
      rw [depth_cons, hopening]
      rcases List.append_eq_append_iff.mp hrest with ⟨front, rfl, hlast⟩ | ⟨front, hlines, -⟩
      · have hfront : -1 ≤ depth front := by
          cases front with
          | nil => decide
          | cons l front =>
            obtain ⟨rfl, hnil⟩ := List.cons.inj hlast
            rw [depth_cons, hclosing, (List.append_eq_nil_iff.mp hnil.symm).1]
            decide
        rw [depth_append, h.depth_eq]
        omega
      · have hbefore := h.depth_nonneg before front hlines
        omega

/-- Up to the last of the lines, a block that was open before balanced lines stays open. -/
theorem depth_pos (h : Balanced lines) {before behind : List String}
    (heq : lines ++ [line'] = before ++ line :: behind) : 0 < 1 + depth before := by
  rcases List.append_eq_append_iff.mp heq with ⟨front, rfl, hlast⟩ | ⟨front, hlines, -⟩
  · cases front with
    | nil =>
      rw [List.append_nil, h.depth_eq]
      decide
    | cons l front =>
      obtain ⟨-, hnil⟩ := List.cons.inj hlast
      exact absurd (List.append_eq_nil_iff.mp hnil.symm).2 (List.cons_ne_nil _ _)
  · have hbefore := h.depth_nonneg before front hlines
    omega

end Balanced

theorem Form.balanced_asLines (form : Form) : Balanced (form.asLines.map Line.text) := by
  have hsingle (line : Line) (h : line.braceChange = 0) : Balanced [line.text] :=
    .single ((Line.braceChange_text line).trans h)
  cases form with
  | input word name =>
    have hinside : Balanced ([Line.assign name.1.text "0", .skip].map Line.text) :=
      (hsingle _ rfl).append (hsingle _ rfl)
    exact hinside.enclose (Line.braceChange_text (.input _)) (Line.braceChange_text .closing)
  | _ => exact hsingle _ rfl

/-- The lines of a program are balanced. -/
theorem Program.balanced_asLines (p : Program) : Balanced (p.asLines.map Line.text) := by
  induction p using Program.induction with
  | nil =>
    rw [Program.asLines]
    exact .nil
  | simple form ends later ih =>
    rw [Program.asLines, List.map_append]
    exact form.balanced_asLines.append ih
  | block b head body foot later ihbody ihlater =>
    have hblock := ihbody.enclose (Line.braceChange_text (.opening b (joinTexts head.test.tokens)))
      (Line.braceChange_text .closing)
    rw [Program.asLines, List.map_cons, List.map_append, List.map_cons, List.append_cons,
      ← List.cons_append]
    exact hblock.append ihlater

end PocketBasic

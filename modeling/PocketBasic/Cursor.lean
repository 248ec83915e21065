import PocketBasic.Token.Lexeme

/-!
# The cursor in a source text

A cursor stands between two characters of a text.  It knows the number of its line,
what stands before it on that line, and all that stands after it.  The column is
the number of characters before it, so it cannot disagree with the text, and the
whole line can be read off at any time.

There is one way to move: forward, by a number of characters.  Everything else is
said in terms of it.
-/

namespace PocketBasic

/-- A position in a text. -/
structure Cursor where
  /-- The number of the line, from one. -/
  line : Nat
  /-- What stands before the cursor on its line, the nearest character first. -/
  before : List Char
  /-- All that stands after the cursor, on this line and the next ones. -/
  rest : List Char
  deriving DecidableEq, Repr

namespace Cursor

/-- The start of a text. -/
def start (text : List Char) : Cursor := ⟨1, [], text⟩

/-- The column, from one. -/
def column (c : Cursor) : Nat := c.before.length + 1

/-- The character after the cursor. -/
def next? (c : Cursor) : Option Char := c.rest.head?

/-- The line that the cursor stands in, without its line end. -/
def lineText (c : Cursor) : String :=
  String.ofList (c.before.reverse ++ c.rest.takeWhile (· ≠ '\n'))

/-- Moves over one character.  At the end of the text there is nothing to move
over. -/
def step (c : Cursor) : Cursor :=
  match c.rest with
  | [] => c
  | ch :: rest => if ch = '\n' then ⟨c.line + 1, [], rest⟩ else ⟨c.line, ch :: c.before, rest⟩

/-- Moves over a number of characters. -/
def advance : Nat → Cursor → Cursor
  | 0, c => c
  | n + 1, c => advance n c.step

@[simp] theorem rest_step (c : Cursor) : c.step.rest = c.rest.drop 1 := by
  unfold step
  split
  · simp_all
  · rename_i h
    rw [h]
    split <;> simp

@[simp] theorem rest_advance (n : Nat) (c : Cursor) : (advance n c).rest = c.rest.drop n := by
  induction n generalizing c with
  | zero => rfl
  | succ n ih => simp [advance, ih]

/-- Moves over all characters up to the first that a test refuses. -/
def skipWhile (p : Char → Bool) (c : Cursor) : Cursor :=
  advance (c.rest.takeWhile p).length c

/-- Moves over the comment after the cursor, if there is one, up to the end of its
line. -/
def skipComment (c : Cursor) : Cursor :=
  if c.next? = some '#' then c.skipWhile (· ≠ '\n') else c

/-- Moves over what stands before the next lexeme: blanks, and then a comment. -/
def skipLayout (c : Cursor) : Cursor := (c.skipWhile Lexeme.isBlank).skipComment

theorem length_rest_skipWhile_le (p : Char → Bool) (c : Cursor) :
    (c.skipWhile p).rest.length ≤ c.rest.length := by
  simp [skipWhile]

theorem length_rest_skipLayout_le (c : Cursor) :
    c.skipLayout.rest.length ≤ c.rest.length := by
  unfold skipLayout skipComment
  split
  · exact Nat.le_trans (length_rest_skipWhile_le _ _) (length_rest_skipWhile_le _ _)
  · exact length_rest_skipWhile_le _ _

/-- At the end of the text there is no layout to move over. -/
theorem skipLayout_of_rest_nil {c : Cursor} (h : c.rest = []) : c.skipLayout = c := by
  have hblank : c.skipWhile Lexeme.isBlank = c := by
    rw [skipWhile, h]
    rfl
  rw [skipLayout, hblank, skipComment, next?, h]
  rfl

end Cursor
end PocketBasic

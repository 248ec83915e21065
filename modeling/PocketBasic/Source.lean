import PocketBasic.Cursor

/-!
# Source texts

A source is a named text with a cursor, and hands out the tokens of the text one at
a time.  A line end is added to the text, so that the last statement is ended like
all others.

Asking for the next token moves over layout and then over one lexeme.  If the
lexeme is at fault, the answer is a diagnostic, and the cursor has moved all the
same: asking again goes on behind the fault.  At the end of the text every answer
is the token that says so.  Main statement: an answer that is not the end of the
input makes the text that is left shorter (`length_left_next_lt`), which is why
reading all tokens ends.
-/

namespace PocketBasic

/-- A named text with a cursor. -/
structure Source where
  filename : String
  /-- The whole text, with the line end that was added. -/
  text : String
  cursor : Cursor
  /-- How many tokens were handed out, not counting the end of the input. -/
  produced : Nat
  deriving DecidableEq, Repr

namespace Source

/-- The name of a text that comes from no file. -/
def defaultName : String := "<input>"

/-- A source at its start. -/
def ofString (filename text : String) : Source where
  filename := filename
  text := text ++ "\n"
  cursor := .start (text ++ "\n").toList
  produced := 0

/-- What is left of the text. -/
def left (s : Source) : List Char := s.cursor.rest

/-- A position in the text as a location. -/
def locate (s : Source) (c : Cursor) : Location := ⟨s.filename, c.line, c.column⟩

/-- A line of the text by its number, from one. -/
def line? (s : Source) (number : Int) : Option String :=
  if 0 < number then
    ((s.text.toList.splitOn '\n')[(number - 1).toNat]?).map String.ofList
  else none

/-- The next token or the fault in its place, and the source behind it. -/
def next (s : Source) : Except Diagnostic Token × Source :=
  let start := s.cursor.skipLayout
  match start.rest with
  | [] => (.ok ⟨.endOfInput, "", s.locate start⟩, { s with cursor := start })
  | c :: rest =>
    let lexeme := Lexeme.read c rest
    let stop := start.advance lexeme.width
    match lexeme.outcome with
    | .ok (kind, text) =>
      (.ok ⟨kind, text, s.locate start⟩, { s with cursor := stop, produced := s.produced + 1 })
    | .error fault =>
      let place := if fault.isBehind then stop else start
      (.error ⟨.lexical fault, some (s.locate place), some start.lineText⟩,
        { s with cursor := stop })

/-- Reading never goes back. -/
theorem length_left_next_le (s : Source) : s.next.2.left.length ≤ s.left.length := by
  have h := s.cursor.length_rest_skipLayout_le
  unfold next left
  dsimp only
  split
  · exact h
  · split <;> simp only [Cursor.rest_advance, List.length_drop] <;> omega

/-- Every answer but the end of the input is bought with at least one character. -/
theorem length_left_next_lt (s : Source)
    (h : ∀ t, s.next.1 = .ok t → t.kind ≠ .endOfInput) :
    s.next.2.left.length < s.left.length := by
  have hle := s.cursor.length_rest_skipLayout_le
  unfold next at h
  unfold next left
  dsimp only at h ⊢
  split
  · rename_i heq
    rw [heq] at h
    exact absurd rfl (h _ rfl)
  · rename_i c rest heq
    have hw := Lexeme.width_read_pos c rest
    have hl : 0 < s.cursor.skipLayout.rest.length := by simp [heq]
    split <;> simp only [Cursor.rest_advance, List.length_drop] <;> omega

/-- The tokens that a source still holds, up to and including the end of the input
or up to a fault. -/
structure Tokens where
  tokens : List Token
  failure : Option Diagnostic
  source : Source
  deriving DecidableEq, Repr

/-- Reads tokens until the end of the input or the first fault. -/
def tokenize (s : Source) : Tokens :=
  match _h : s.next with
  | (.error failure, s') => ⟨[], some failure, s'⟩
  | (.ok token, s') =>
    if _hk : token.kind = .endOfInput then ⟨[token], none, s'⟩
    else
      let later := s'.tokenize
      { later with tokens := token :: later.tokens }
termination_by s.left.length
decreasing_by
  have := s.length_left_next_lt (by rw [_h]; rintro t ⟨⟩; exact _hk)
  rwa [_h] at this

end Source
end PocketBasic

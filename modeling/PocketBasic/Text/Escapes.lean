/-!
# Terminal escapes

A terminal reads `ESC [`, any digits, semicolons and question marks, and then one
letter as a command.  Text that is printed for a person has such commands removed,
so that a file name cannot move the cursor or change colours.
-/

namespace PocketBasic
namespace Text

/-- Whether a character may stand between the bracket and the letter of an
escape. -/
def isEscapeParameter (c : Char) : Bool := c.isDigit || c = ';' || c = '?'

/-- If a complete escape stands at the front, what follows it. -/
def afterEscape? : List Char → Option (List Char)
  | '\x1b' :: '[' :: rest =>
    match rest.dropWhile isEscapeParameter with
    | letter :: after => if letter.isAlpha then some after else none
    | [] => none
  | _ => none

theorem length_afterEscape?_lt {text after : List Char} (h : afterEscape? text = some after) :
    after.length < text.length := by
  unfold afterEscape? at h
  split at h
  · rename_i rest
    have hle : (rest.dropWhile isEscapeParameter).length ≤ rest.length :=
      (List.dropWhile_suffix _).length_le
    split at h
    · split at h
      · rename_i heq _
        obtain rfl := Option.some.inj h
        rw [heq] at hle
        simp only [List.length_cons] at hle ⊢
        omega
      · cases h
    · cases h
  · cases h

/-- A text without its terminal escapes.  An escape that is not complete is
ordinary text. -/
def removeEscapes : List Char → List Char
  | [] => []
  | c :: rest =>
    match _h : afterEscape? (c :: rest) with
    | some after => removeEscapes after
    | none => c :: removeEscapes rest
termination_by text => text.length
decreasing_by
  · exact length_afterEscape?_lt _h
  · simp

/-- A text without the escape character stays as it is. -/
theorem removeEscapes_eq_self {text : List Char} (h : '\x1b' ∉ text) :
    removeEscapes text = text := by
  induction text with
  | nil => rw [removeEscapes]
  | cons c rest ih =>
    have hc : c ≠ '\x1b' := fun hc => h (hc ▸ List.mem_cons_self)
    have hn : afterEscape? (c :: rest) = none := by
      unfold afterEscape?
      split
      · rename_i heq
        exact absurd (List.cons.inj heq).1 hc
      · rfl
    rw [removeEscapes]
    split
    · simp_all
    · rw [ih fun hr => h (List.mem_cons_of_mem c hr)]

end Text
end PocketBasic

/-!
# Similar words

A misspelt option is answered with the known options that resemble it.  The
measure is that of gestalt pattern matching: take the longest block that two words
have in common, count its characters, and go on in the same way with what stands
left of the block in both words and with what stands right of it.  Twice the count
over the sum of the lengths is the similarity, 1 for equal words and 0 for words
without a common character.

Of several longest blocks the one that starts first in the first word is taken,
and of those the one that starts first in the second.  The choice matters, since
what is left over depends on it.
-/

namespace PocketBasic
namespace Text

/-- The number of characters that two words have in common from their start. -/
def commonStart : List Char → List Char → Nat
  | a :: as, b :: bs => if a = b then commonStart as bs + 1 else 0
  | _, _ => 0

/-- A block that two words share: where it starts in each, and its length. -/
structure Block where
  left : Nat
  right : Nat
  length : Nat
  deriving DecidableEq, Repr

/-- The longest common block of two words; the first of them, if several are
longest. -/
def longestBlock (a b : List Char) : Block :=
  let starts := (List.range a.length).flatMap fun i => (List.range b.length).map fun j => (i, j)
  starts.foldl
    (fun best (i, j) =>
      let n := commonStart (a.drop i) (b.drop j)
      if best.length < n then ⟨i, j, n⟩ else best)
    ⟨0, 0, 0⟩

/-- The number of characters in all blocks that two words share, on both sides of
the longest one in turn. -/
def sharedLength (a b : List Char) : Nat :=
  match longestBlock a b with
  | ⟨left, right, length⟩ =>
    if 0 < length ∧ left + length ≤ a.length then
      sharedLength (a.take left) (b.take right) + length
        + sharedLength (a.drop (left + length)) (b.drop (right + length))
    else 0
termination_by a.length
decreasing_by
  all_goals simp only [List.length_take, List.length_drop]; omega

/-- A word with its similarity to another, as the fraction `2 * shared / total`. -/
structure Likeness where
  word : String
  shared : Nat
  total : Nat
  deriving DecidableEq, Repr

/-- How much a known word resembles the given one. -/
def likeness (given known : String) : Likeness :=
  ⟨known, sharedLength known.toList given.toList, known.length + given.length⟩

/-- Words that are alike to three fifths or more count as similar. -/
def Likeness.isClose (l : Likeness) : Bool := 3 * l.total ≤ 10 * l.shared

/-- Whether the first word is to be named before the second: the more similar one,
and of equally similar ones the one that sorts last. -/
def Likeness.outranks (l r : Likeness) : Bool :=
  r.shared * l.total < l.shared * r.total ||
    (r.shared * l.total == l.shared * r.total && r.word ≤ l.word)

/-- At most three known words that resemble the given one, the best of them, in
alphabetical order. -/
def similarWords (given : String) (known : List String) : List String :=
  let close := ((known.map (likeness given)).filter Likeness.isClose).mergeSort Likeness.outranks
  ((close.take 3).map Likeness.word).mergeSort fun a b => a ≤ b

end Text
end PocketBasic

/-!
# Paths

A path is an anchor, which says where it starts, and a list of components.  Its
normal form has no empty component and no `.`, so doubled and trailing slashes
leave no trace; `..` stays, because what it means depends on the directories that
are there.

Two leading slashes are an anchor of their own and three or more are the same as
one, as the standard for portable paths has it.
-/

namespace PocketBasic

/-- Where a path starts: at the working directory, at the root, or at the root that
two slashes name. -/
inductive Anchor where
  | working
  | root
  | doubleRoot
  deriving DecidableEq, Repr

namespace Anchor

/-- The slashes that an anchor is written with. -/
def text : Anchor → String
  | working => ""
  | root => "/"
  | doubleRoot => "//"

/-- The anchor of a path written with so many leading slashes. -/
def ofSlashes : Nat → Anchor
  | 0 => working
  | 2 => doubleRoot
  | _ => root

end Anchor

/-- A path in normal form. -/
structure Path where
  anchor : Anchor
  components : List String
  deriving DecidableEq, Repr

namespace Path

/-- Whether a piece between slashes is a component of the normal form. -/
def isComponent (piece : List Char) : Bool := piece ≠ [] ∧ piece ≠ ['.']

/-- The normal form of a path as it was written. -/
def ofString (text : String) : Path where
  anchor := .ofSlashes (text.toList.takeWhile (· = '/')).length
  components := ((text.toList.splitOn '/').filter isComponent).map String.ofList

/-- The text of a path.  The path without components at the working directory is
written `.`. -/
protected def toString (p : Path) : String :=
  match p.anchor, p.components with
  | .working, [] => "."
  | anchor, components => anchor.text ++ String.intercalate "/" components

instance : ToString Path := ⟨Path.toString⟩

/-- The last component, or the empty text if there is none. -/
def name (p : Path) : String := p.components.getLastD ""

/-- The part of a name from its last dot on, if that dot is neither the first nor
the last character, and nothing otherwise. -/
def suffixOf (name : List Char) : List Char :=
  let back := name.reverse
  let ending := back.takeWhile (· ≠ '.')
  match back.dropWhile (· ≠ '.') with
  | '.' :: _ :: _ => if ending = [] then [] else '.' :: ending.reverse
  | _ => []

/-- The suffix of the last component. -/
def suffix (p : Path) : String := String.ofList (suffixOf p.name.toList)

end Path
end PocketBasic

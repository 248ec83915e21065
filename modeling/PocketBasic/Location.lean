/-!
# Locations

A location names a source text and a position in it.  Lines and columns are counted
from one, and a column counts characters, not bytes and not cells of a terminal.
The numbers are integers rather than naturals: a location may come from outside,
and one that lies before the text is still written as it is.
-/

namespace PocketBasic

/-- A position in a named source text. -/
structure Location where
  filename : String
  line : Int
  column : Int
  deriving DecidableEq, Repr

/-- The form in which messages cite a location. -/
protected def Location.toString (l : Location) : String :=
  l.filename ++ ":" ++ toString l.line ++ ":" ++ toString l.column

instance : ToString Location := ⟨Location.toString⟩

end PocketBasic

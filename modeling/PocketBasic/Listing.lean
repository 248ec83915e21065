/-!
# Listings

The C text of a program is written in two parts at once.  C wants a variable to be
declared before it is used, but a variable of the program is only known when the
first assignment to it is read.  So declarations go to the header and statements to
the body, and the listing is the header followed by the body.
-/

namespace PocketBasic

/-- A C text under construction. -/
structure Listing where
  header : String
  body : String
  deriving DecidableEq, Repr

namespace Listing

/-- The listing with nothing in it. -/
def empty : Listing := ⟨"", ""⟩

/-- Adds text to the body. -/
def emit (l : Listing) (text : String) : Listing := { l with body := l.body ++ text }

/-- Adds text to the body and ends the line. -/
def emitLine (l : Listing) (text : String) : Listing := l.emit (text ++ "\n")

/-- Adds a line to the header. -/
def headerLine (l : Listing) (text : String) : Listing :=
  { l with header := l.header ++ (text ++ "\n") }

/-- The whole text. -/
def render (l : Listing) : String := l.header ++ l.body

@[simp] theorem emit_empty (l : Listing) : l.emit "" = l := by simp [emit]

@[simp] theorem emit_emit (l : Listing) (text text' : String) :
    (l.emit text).emit text' = l.emit (text ++ text') := by
  simp [emit, String.append_assoc]

@[simp] theorem render_empty : empty.render = "" := by simp [empty, render]

@[simp] theorem render_emit (l : Listing) (text : String) :
    (l.emit text).render = l.render ++ text := by
  simp [emit, render, String.append_assoc]

@[simp] theorem render_emitLine (l : Listing) (text : String) :
    (l.emitLine text).render = l.render ++ (text ++ "\n") := render_emit l _

end Listing
end PocketBasic

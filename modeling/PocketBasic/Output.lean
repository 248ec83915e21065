import PocketBasic.Diagnostic
import PocketBasic.FileTree
import PocketBasic.Listing
import PocketBasic.Text.SingleByte

/-!
# Outputs

An output is a listing with a place to go.  Nothing is written while the listing
grows, so a program that turns out to be wrong leaves no file behind; it is written
as a whole, as single-byte text, and once.

`Output.store` fails if there is no place, if the listing was stored before, if it
has a character that is not a single byte, or if the system refuses the write, and
it looks for these reasons in this order.  A failure changes nothing, so that
storing may be tried again.
-/

namespace PocketBasic

/-- A listing with the path it is to be written to. -/
structure Output where
  path : Option Path
  listing : Listing
  stored : Bool
  deriving DecidableEq, Repr

namespace Output

variable {m : Type → Type} [Monad m]

/-- An output with an empty listing, which was not stored. -/
def empty (path : Option Path) : Output := ⟨path, .empty, false⟩

/-- The text that stands for the path in messages. -/
def pathText (o : Output) : String :=
  match o.path with
  | some path => toString path
  | none => "<none>"

/-- The diagnostic of an output that cannot be stored for the given reason. -/
def refused (o : Output) (reason : String) : Diagnostic :=
  .ofAccess (.unwritable o.pathText reason)

/-- The reason for which characters cannot be written as single bytes. -/
def wideReason (run : List Char) : String :=
  "character " ++ String.ofList (Text.quoted run) ++ " is not a single byte"

/-- What is to be written and where, or why nothing can be. -/
def content? (o : Output) : Except Diagnostic (Path × List UInt8) :=
  match o.path with
  | none => .error (o.refused "no output path configured")
  | some path =>
    if o.stored then .error (o.refused "output already written")
    else
      match Text.encodeBytes o.listing.render.toList with
      | .error run => .error (o.refused (wideReason run))
      | .ok bytes => .ok (path, bytes)

/-- Writes the listing to its path.  The answer is the text that was written. -/
def store (disk : Disk m) (o : Output) : m (Except Diagnostic String × Output) :=
  match o.content? with
  | .error d => pure (.error d, o)
  | .ok (path, bytes) => do
    match ← disk.write path bytes with
    | .error refusal => pure (.error (o.refused refusal.reason), o)
    | .ok () => pure (.ok o.listing.render, { o with stored := true })

end Output
end PocketBasic

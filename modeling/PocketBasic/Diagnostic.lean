import PocketBasic.Location
import PocketBasic.Text.Quoted

/-!
# Diagnostics

Whatever can go wrong is a cause of one of four families: characters that form no
token, tokens that form no program, names that are used without being declared or
declared twice, and files that cannot be read or written.  A diagnostic adds to the
cause where it was found and the source line found there.

The wording stands apart from the cause.  `Cause.description` is what went wrong in
one phrase, `Cause.hint` is advice that some causes come with, and
`Diagnostic.message` lays both out with the place: the location and the
description, the source line with a caret below the column, and the hint, each on a
line of its own and each only if it is there.
-/

namespace PocketBasic

/-- The families of causes. -/
inductive Family where
  | lexical
  | grammar
  | naming
  | access
  deriving DecidableEq, Repr

/-- Characters that form no token. -/
inductive LexicalFault where
  /-- A character that starts no token. -/
  | invalidCharacter (c : Char)
  /-- Text that may not stand in a string. -/
  | illegalInString (found : String)
  /-- A string that its line ends before the closing quote. -/
  | unterminatedString
  /-- A decimal point without a digit after it. -/
  | malformedNumber (found : String)
  /-- The first half of an operator of two characters. -/
  | malformedOperator (expected found : String)
  deriving DecidableEq, Repr

/-- Tokens that form no program. -/
inductive GrammarFault where
  /-- A token that cannot stand where it does. -/
  | unexpectedToken (found : String) (expected : Option String)
  /-- Another token where one of a given kind is due. -/
  | missingToken (expected found : String)
  /-- A condition that compares nothing. -/
  | missingComparison (found : String)
  deriving DecidableEq, Repr

/-- Names that break the rules of declaration. -/
inductive NameFault where
  /-- A variable that no statement before has given a value. -/
  | undeclaredVariable (name : String)
  /-- A label that a statement before declares already. -/
  | duplicateLabel (name : String) (first : Option Location)
  /-- A jump to a label that is declared nowhere. -/
  | undeclaredLabel (name : String)
  deriving DecidableEq, Repr

/-- Files that cannot be compiled, read or written. -/
inductive AccessFault where
  /-- A file whose name does not have the extension of a source file. -/
  | wrongExtension (path extension : String)
  | unreadable (path reason : String)
  | unwritable (path reason : String)
  deriving DecidableEq, Repr

/-- What went wrong.  The last form is a cause that is known only by its wording. -/
inductive Cause where
  | lexical (fault : LexicalFault)
  | grammar (fault : GrammarFault)
  | naming (fault : NameFault)
  | access (fault : AccessFault)
  | worded (family : Option Family) (description : String) (hint : Option String)
  deriving DecidableEq, Repr

/-- A code point in upper-case hexadecimal with at least two digits. -/
def codePointText (c : Char) : String :=
  "0x" ++ String.ofList (((Nat.toDigits 16 c.toNat).map Char.toUpper).leftpad 2 '0')

namespace LexicalFault

/-- What went wrong, in one phrase. -/
def description : LexicalFault → String
  | invalidCharacter c => "unknown token: '" ++ c.toString ++ "' (" ++ codePointText c ++ ")"
  | illegalInString found => "illegal character in string: " ++ Text.quote found
  | unterminatedString => "unterminated string literal"
  | malformedNumber found => "illegal character in number: " ++ Text.quote found
  | malformedOperator expected found =>
    "expected '" ++ expected ++ "', got " ++ Text.quote found

/-- The advice that comes with a fault. -/
def hint : LexicalFault → Option String
  | invalidCharacter _ => none
  | illegalInString _ => some "strings may not contain '%', '\\', tabs or line breaks"
  | unterminatedString => some "add closing '\"' to complete the string"
  | malformedNumber _ => some "a decimal point must be followed by at least one digit"
  | malformedOperator _ _ => none

/-- Whether a fault is found behind the characters that were read, as opposed to at
the first of them. -/
def isBehind : LexicalFault → Bool
  | illegalInString _ | malformedNumber _ => true
  | _ => false

end LexicalFault

namespace GrammarFault

/-- What went wrong, in one phrase. -/
def description : GrammarFault → String
  | unexpectedToken found _ => "unexpected token " ++ found
  | missingToken expected found => "expected " ++ expected ++ ", got " ++ found
  | missingComparison found => "expected comparison operator, got " ++ found

/-- The advice that comes with a fault. -/
def hint : GrammarFault → Option String
  | unexpectedToken _ (some expected) =>
    if expected = "" then none else some ("expected " ++ expected)
  | unexpectedToken _ none => none
  | missingToken _ _ => none
  | missingComparison _ => some "conditions need one of ==, !=, <, <=, >, >="

end GrammarFault

namespace NameFault

/-- What went wrong, in one phrase. -/
def description : NameFault → String
  | undeclaredVariable name => "referencing variable before assignment: '" ++ name ++ "'"
  | duplicateLabel name _ => "label already declared: '" ++ name ++ "'"
  | undeclaredLabel name => "attempting to GOTO undeclared label: '" ++ name ++ "'"

/-- The advice that comes with a fault. -/
def hint : NameFault → Option String
  | undeclaredVariable _ => some "assign it with LET or read it with INPUT first"
  | duplicateLabel name first =>
    first.map fun place => "'" ++ name ++ "' was first declared at " ++ toString place
  | undeclaredLabel _ => none

end NameFault

/-- What went wrong, in one phrase. -/
def AccessFault.description : AccessFault → String
  | wrongExtension path extension =>
    "cannot compile '" ++ path ++ "': expected a '" ++ extension ++ "' source file"
  | unreadable path reason => "cannot read file '" ++ path ++ "': " ++ reason
  | unwritable path reason => "cannot write file '" ++ path ++ "': " ++ reason

namespace Cause

/-- The family of a cause, if it is known. -/
def family : Cause → Option Family
  | lexical _ => some .lexical
  | grammar _ => some .grammar
  | naming _ => some .naming
  | access _ => some .access
  | worded family _ _ => family

/-- What went wrong, in one phrase. -/
def description : Cause → String
  | lexical fault => fault.description
  | grammar fault => fault.description
  | naming fault => fault.description
  | access fault => fault.description
  | worded _ description _ => description

/-- The advice that comes with a cause. -/
def hint : Cause → Option String
  | lexical fault => fault.hint
  | grammar fault => fault.hint
  | naming fault => fault.hint
  | access _ => none
  | worded _ _ hint => hint

end Cause

/-- A cause with the place where it was found and the source line there. -/
structure Diagnostic where
  cause : Cause
  location : Option Location
  sourceLine : Option String
  deriving DecidableEq, Repr

namespace Diagnostic

/-- A fault of access, which has no place in a source text. -/
def ofAccess (fault : AccessFault) : Diagnostic := ⟨.access fault, none, none⟩

/-- A line that holds a caret below the given column of a source line that is
indented by four.  Columns before the first have no place to point at. -/
def caretLine (column : Int) : List String :=
  if 0 < column then [String.ofList (List.replicate (3 + column.toNat) ' ' ++ ['^'])] else []

/-- The first line of a message. -/
def headline (d : Diagnostic) : String :=
  match d.location with
  | some place => toString place ++ ": error: " ++ d.cause.description
  | none => "error: " ++ d.cause.description

/-- The source line with its caret, if both the line and the place are known. -/
def excerpt (d : Diagnostic) : List String :=
  match d.sourceLine, d.location with
  | some line, some place => ("    " ++ line) :: caretLine place.column
  | _, _ => []

/-- The hint as a line of a message.  An empty hint is none. -/
def hintLine (d : Diagnostic) : List String :=
  match d.cause.hint with
  | some hint => if hint = "" then [] else ["hint: " ++ hint]
  | none => []

/-- The full text of a diagnostic. -/
def message (d : Diagnostic) : String :=
  String.intercalate "\n" (d.headline :: (d.excerpt ++ d.hintLine))

end Diagnostic
end PocketBasic

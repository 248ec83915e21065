import PocketBasic.Grammar.Control
import PocketBasic.Listing
import PocketBasic.Names

/-!
# Drafts

A draft is what the tokens read so far have come to: the names they declare, the
listing they give rise to, and the place in the grammar where the next token is due.
It knows nothing of where tokens come from, so all that is said of drafts holds of
any sequence of tokens.

## The order of things

One token is dealt with in four moments.

1. What ends before the token is closed (`close`), and the draft stands where the
   token is read (`settle`): a `PRINT` gets its brackets, an assignment its semicolon
   and its variable its declaration.
2. The token is checked (`check`), first against the grammar and then, if it is a
   variable, against the declarations.
3. It is written, if it is written as it stands (`write`): operands, operators and
   strings.
4. When the next token is in hand, the rest is written (`finish`): the opening of a
   condition, a label, a jump, an input.  A label is checked here.

Jumps are checked when the program is complete (`conclude`).
-/

namespace PocketBasic

/-- What the tokens of a program read so far have come to. -/
structure Draft where
  names : Names
  listing : Listing
  control : Control
  /-- The variable of the `LET` statement that is being read, which is declared when
  the statement's expression is over. -/
  target : String
  deriving DecidableEq, Repr

namespace Draft

/-! ## Writing -/

/-- Adds text to the body of the listing. -/
def emit (d : Draft) (text : String) : Draft := { d with listing := d.listing.emit text }

/-- Adds text to the body of the listing and ends the line. -/
def emitLine (d : Draft) (text : String) : Draft := d.emit (text ++ "\n")

/-- Adds a line to the header of the listing. -/
def headerLine (d : Draft) (text : String) : Draft :=
  { d with listing := d.listing.headerLine text }

/-- The line that declares a variable. -/
def declarationLine (name : String) : String := "float " ++ name ++ ";"

/-- Declares a variable, unless it is declared. -/
def declareVariable (d : Draft) (name : String) : Draft :=
  if name ∈ d.names.variableNames then d
  else { d with names := d.names.declare (.ofVariable name) }.headerLine (declarationLine name)

/-- Declares a label, which must not be declared, at a place. -/
def declareLabel (d : Draft) (name : String) (place : Location) : Except NameFault Draft :=
  match d.names.labels.lookup name with
  | some first => .error (.duplicateLabel name (some first))
  | none => .ok { d with names := d.names.declare (.ofLabel name place) }

/-- Records a jump to a label, which may be declared later. -/
def recordJump (d : Draft) (name : String) (place : Location) : Draft :=
  { d with names := d.names.jump name place }

/-- Writes the reading of a number into a variable.  A word that is no number is
passed over, and the variable is zero. -/
def emitInput (d : Draft) (name : String) : Draft :=
  (((d.emitLine ("if(0 == scanf(\"%f\", &" ++ name ++ ")) \x7b")).emitLine
    (name ++ " = 0;")).emitLine "scanf(\"%*s\");").emitLine "\x7d"

/-! ## The moments of a token -/

/-- Writes what is due when a token shows that the rule before it is over.  The
places are where the rule stood and where the token is read. -/
def close (d : Draft) : Place → Place → Draft
  | .blankLines true, .statement => d.emitLine ")\x7b"
  | .printItem, .operand _ => d.emit "printf(\"%.2f\\n\", (float)("
  | .operator .printed, .lineEnd _ => d.emitLine "));"
  | .operator .assigned, .lineEnd _ =>
    { (d.emitLine ";").declareVariable d.target with target := "" }
  | _, _ => d

/-- Goes to the place where a token of a kind is read, and writes what is due on the
way. -/
def settle (d : Draft) (k : Kind) : Draft :=
  { d.close d.control.place (d.control.place.settle k) with control := d.control.settle k }

/-- The fault of a token that the grammar allows: a variable that is not declared. -/
def useFault? (d : Draft) (token : Token) : Option NameFault :=
  match d.control.place, token.kind with
  | .operand _, .identifier | .signed _, .identifier =>
    if token.text ∈ d.names.variableNames then none else some (.undeclaredVariable token.text)
  | _, _ => none

/-- What comes of checking a token: the program is complete, the token is refused, or
it passes and reading goes on behind it. -/
inductive Opinion where
  | complete
  | refused (cause : Cause)
  | passed (next : Control)
  deriving DecidableEq, Repr

/-- Checks a token at the place where it is read. -/
def check (d : Draft) (token : Token) : Opinion :=
  match d.control.reactSettled token.kind with
  | .complete => .complete
  | .reject e => .refused (.grammar (e.fault token))
  | .proceed next =>
    match d.useFault? token with
    | some fault => .refused (.naming fault)
    | none => .passed next

/-- Writes a token that stands in the listing as it stands in the program, and a
string in its call. -/
def write (d : Draft) (token : Token) : Draft :=
  match d.control.place with
  | .operand _ | .signed _ | .operator _ => d.emit token.text
  | .printItem => d.emitLine ("printf(\"" ++ token.text ++ "\\n\");")
  | _ => d

/-- Writes what a token gives rise to when the next one is in hand, and goes on behind
it. -/
def finish (d : Draft) (token : Token) (next : Control) : Except NameFault Draft :=
  let d' := { d with control := next }
  match d.control.place with
  | .statement =>
    match token.kind with
    | .keyword .IF => .ok (d'.emit "if(")
    | .keyword .WHILE => .ok (d'.emit "while(")
    | .keyword .ENDIF | .keyword .ENDWHILE => .ok (d'.emitLine "\x7d")
    | _ => .ok d'
  | .labelName =>
    match d'.declareLabel token.text token.location with
    | .error fault => .error fault
    | .ok d' => .ok (d'.emitLine (token.text ++ ":"))
  | .jumpName =>
    .ok ((d'.recordJump token.text token.location).emitLine ("goto " ++ token.text ++ ";"))
  | .assignedName => .ok { d' with target := token.text }
  | .equalsSign => .ok (d'.emit (d'.target ++ " = "))
  | .inputName => .ok ((d'.declareVariable token.text).emitInput token.text)
  | _ => .ok d'

/-- The draft of a program before its first token, with the opening lines of the
listing written. -/
def start (names : Names) (listing : Listing) : Draft where
  names := names
  listing := (listing.headerLine "#include <stdio.h>").headerLine "int main(void)\x7b"
  control := .start
  target := ""

/-- Ends a complete program, if all its jumps lead somewhere.  If not, the answer is
the first jump that does not. -/
def conclude (d : Draft) : Except (String × Location) Draft :=
  match d.names.danglingJump? with
  | some jump => .error jump
  | none => .ok ((d.emitLine "return 0;").emitLine "\x7d")

end Draft
end PocketBasic

import PocketBasic.Location
import PocketBasic.Text.Quoted

/-!
# Tokens

The language has eleven keywords, eleven operators, and three classes of tokens
with a text of their own: numbers, identifiers and strings.  A line end is a token
too, because it ends a statement, and so is the end of the input.

The text of a token is what stands in the source, without the quotes of a string.
-/

namespace PocketBasic

/-- The keywords.  Each constructor is the word itself; a word in another case is
an identifier. -/
inductive Keyword where
  | LABEL | GOTO | PRINT | INPUT | LET | IF | THEN | ENDIF | WHILE | REPEAT | ENDWHILE
  deriving DecidableEq, Repr

namespace Keyword

/-- The word as it is written in a program. -/
def text : Keyword → String
  | LABEL => "LABEL"
  | GOTO => "GOTO"
  | PRINT => "PRINT"
  | INPUT => "INPUT"
  | LET => "LET"
  | IF => "IF"
  | THEN => "THEN"
  | ENDIF => "ENDIF"
  | WHILE => "WHILE"
  | REPEAT => "REPEAT"
  | ENDWHILE => "ENDWHILE"

/-- All keywords. -/
def all : List Keyword :=
  [LABEL, GOTO, PRINT, INPUT, LET, IF, THEN, ENDIF, WHILE, REPEAT, ENDWHILE]

theorem mem_all (k : Keyword) : k ∈ all := by cases k <;> decide

/-- The keyword that a word is, if it is one. -/
def ofText? (word : String) : Option Keyword := all.find? fun k => k.text = word

end Keyword

/-- The operators. -/
inductive Operator where
  | assign | plus | minus | times | divide
  | equal | notEqual | less | lessEqual | greater | greaterEqual
  deriving DecidableEq, Repr

namespace Operator

/-- The operator as it is written in a program. -/
def text : Operator → String
  | assign => "="
  | plus => "+"
  | minus => "-"
  | times => "*"
  | divide => "/"
  | equal => "=="
  | notEqual => "!="
  | less => "<"
  | lessEqual => "<="
  | greater => ">"
  | greaterEqual => ">="

/-- The name by which a token dump calls an operator. -/
def name : Operator → String
  | assign => "EQ"
  | plus => "PLUS"
  | minus => "MINUS"
  | times => "ASTERISK"
  | divide => "SLASH"
  | equal => "EQEQ"
  | notEqual => "NOTEQ"
  | less => "LT"
  | lessEqual => "LTEQ"
  | greater => "GT"
  | greaterEqual => "GTEQ"

/-- All operators. -/
def all : List Operator :=
  [assign, plus, minus, times, divide,
   equal, notEqual, less, lessEqual, greater, greaterEqual]

theorem mem_all (o : Operator) : o ∈ all := by cases o <;> decide

/-- Whether an operator compares two values. -/
def isComparison : Operator → Bool
  | equal | notEqual | less | lessEqual | greater | greaterEqual => true
  | _ => false

/-- Whether an operator may stand before an operand as its sign. -/
def isSign : Operator → Bool
  | plus | minus => true
  | _ => false

/-- Whether an operator joins two operands to a value. -/
def isArithmetic : Operator → Bool
  | plus | minus | times | divide => true
  | _ => false

end Operator

/-- The kinds of tokens. -/
inductive Kind where
  | endOfInput
  | newline
  | number
  | identifier
  | string
  | keyword (k : Keyword)
  | operator (o : Operator)
  deriving DecidableEq, Repr

namespace Kind

/-- The name by which a token dump calls a kind. -/
def name : Kind → String
  | endOfInput => "EOF"
  | newline => "NEWLINE"
  | number => "NUMBER"
  | identifier => "IDENT"
  | string => "STRING"
  | keyword k => k.text
  | operator o => o.name

/-- All kinds. -/
def all : List Kind :=
  [endOfInput, newline, number, identifier, string]
    ++ Keyword.all.map keyword ++ Operator.all.map operator

/-- The kind that a dump calls by a name, if there is one. -/
def ofName? (name : String) : Option Kind := all.find? fun k => k.name = name

/-- Whether tokens of the kind compare two values. -/
def isComparison : Kind → Bool
  | operator o => o.isComparison
  | _ => false

/-- Whether tokens of the kind may be the sign of an operand. -/
def isSign : Kind → Bool
  | operator o => o.isSign
  | _ => false

/-- Whether tokens of the kind join two operands to a value. -/
def isArithmetic : Kind → Bool
  | operator o => o.isArithmetic
  | _ => false

/-- Whether tokens of the kind are operands. -/
def isOperand : Kind → Bool
  | number | identifier => true
  | _ => false

end Kind

/-- A token: its kind, its text and where it starts. -/
structure Token where
  kind : Kind
  text : String
  location : Location
  deriving DecidableEq, Repr

namespace Token

/-- The line that a token dump shows for a token.  Line ends and the end of the
input have no text worth showing. -/
def dump (t : Token) : String :=
  let place := toString t.location.line ++ ":" ++ toString t.location.column
  match t.kind with
  | .endOfInput | .newline => "Token(" ++ t.kind.name ++ ", " ++ place ++ ")"
  | kind => "Token(" ++ kind.name ++ ", " ++ Text.quote t.text ++ ", " ++ place ++ ")"

/-- What a message calls a token that it found. -/
def describe (t : Token) : String :=
  match t.kind with
  | .endOfInput => "end of input"
  | .newline => "newline"
  | .string => "string \"" ++ t.text ++ "\""
  | _ => "'" ++ t.text ++ "'"

end Token
end PocketBasic

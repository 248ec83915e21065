import PocketBasic.Token
import PocketBasic.Diagnostic

/-!
# Expectations

When a token does not fit, the grammar knows what had to stand in its place.  An
expectation is that knowledge; `Expectation.fault` turns it into the fault that is
reported about the token found.
-/

namespace PocketBasic

/-- What had to come where something else stands. -/
inductive Expectation where
  | statement
  | operand
  | comparison
  | keyword (k : Keyword)
  | newline
  | labelName
  | variableName
  | equalsSign
  deriving DecidableEq, Repr

namespace Expectation

/-- What messages call the thing expected. -/
def phrase : Expectation → String
  | statement => "a statement (PRINT, IF, WHILE, LABEL, GOTO, LET or INPUT)"
  | operand => "a number or variable"
  | comparison => "comparison operator"
  | keyword k => "'" ++ k.text ++ "'"
  | newline => "newline"
  | labelName => "label name"
  | variableName => "variable name"
  | equalsSign => "'='"

/-- The fault of a token that is not what is expected.  Statements and operands can
begin with several kinds of tokens, so there the token is unexpected; a condition
without comparison has a fault of its own; anything else is missing. -/
def fault (e : Expectation) (found : Token) : GrammarFault :=
  match e with
  | statement | operand => .unexpectedToken found.describe (some e.phrase)
  | comparison => .missingComparison found.describe
  | _ => .missingToken e.phrase found.describe

end Expectation
end PocketBasic

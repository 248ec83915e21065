import PocketBasic.Grammar.Expectation

/-!
# The control of the grammar

A program is a sequence of statements, each ended by one or more line ends, and a
block is a sequence of statements between the line that opens it and the word that
closes it:

    program    ::= newline* statement*
    statement  ::= form newline+
    form       ::= PRINT (expression | string)
                 | IF comparison THEN newline+ statement* ENDIF
                 | WHILE comparison REPEAT newline+ statement* ENDWHILE
                 | LABEL name | GOTO name
                 | LET name = expression
                 | INPUT name
    comparison ::= expression ((== | != | < | <= | > | >=) expression)+
    expression ::= term ((+ | -) term)*
    term       ::= unary ((* | /) unary)*
    unary      ::= (+ | -)? (number | name)

The grammar needs no look-ahead: a place in a rule and the stack of open blocks
decide whether a token may come next and where reading goes on.  That makes the
control a deterministic pushdown automaton over the kinds of tokens.  Expressions
have no brackets, so the levels of the operators leave no trace in it: an expression
is a chain of operands, each with at most one sign, joined by operators.

Some rules are over only when the token behind them is seen, as an expression is by
any token that is no operator.  `Place.settle` goes on to the place where that
token is read, and `Control.react` reads it there.  The two are kept apart because
what is written at the end of an expression is written even if the token behind it
turns out to be wrong.
-/

namespace PocketBasic

/-- The statements that hold other statements. -/
inductive Block where
  | conditional
  | loop
  deriving DecidableEq, Repr

namespace Block

/-- The word that ends the condition. -/
def opener : Block → Keyword
  | conditional => .THEN
  | loop => .REPEAT

/-- The word that ends the block. -/
def closer : Block → Keyword
  | conditional => .ENDIF
  | loop => .ENDWHILE

end Block

/-- What an expression is read for: to be printed, to be assigned, or as a side of
the condition of a block, before or after the first comparison in it. -/
inductive Purpose where
  | printed
  | assigned
  | tested (b : Block)
  | compared (b : Block)
  deriving DecidableEq, Repr

/-- A place in a rule of the grammar. -/
inductive Place where
  /-- Before the first statement, where empty lines may stand. -/
  | beginning
  /-- Before a statement, the end of a block or the end of the program. -/
  | statement
  /-- After `PRINT`. -/
  | printItem
  /-- Before an operand or its sign. -/
  | operand (p : Purpose)
  /-- Between a sign and its operand. -/
  | signed (p : Purpose)
  /-- Behind an operand. -/
  | operator (p : Purpose)
  /-- Behind the condition of a block. -/
  | opener (b : Block)
  /-- After `LABEL`. -/
  | labelName
  /-- After `GOTO`. -/
  | jumpName
  /-- After `LET`. -/
  | assignedName
  /-- After `LET` and a name. -/
  | equalsSign
  /-- After `INPUT`. -/
  | inputName
  /-- Before the line end that must follow, which opens a block or ends a
  statement. -/
  | lineEnd (opens : Bool)
  /-- Behind that line end, where more of them may stand. -/
  | blankLines (opens : Bool)
  deriving DecidableEq, Repr

/-- A place in the grammar with the blocks that are open there, the innermost
first. -/
structure Control where
  place : Place
  blocks : List Block
  deriving DecidableEq, Repr

/-- What comes of reading a token: the program is complete, the token fits and
reading goes on, or it does not fit. -/
inductive Verdict where
  | complete
  | proceed (next : Control)
  | reject (e : Expectation)
  deriving DecidableEq, Repr

namespace Place

/-- The place where a token is read, when a rule may be over before it. -/
def settle (k : Kind) : Place → Place
  | beginning => if k = .newline then beginning else statement
  | blankLines opens => if k = .newline then blankLines opens else statement
  | printItem => if k = .string then printItem else operand .printed
  | operator .printed => if k.isArithmetic then operator .printed else lineEnd false
  | operator .assigned => if k.isArithmetic then operator .assigned else lineEnd false
  | operator (.compared b) =>
    if k.isArithmetic || k.isComparison then operator (.compared b) else opener b
  | place => place

end Place

namespace Control

/-- Where reading starts. -/
def start : Control := ⟨.beginning, []⟩

/-- Goes on with another place and the same blocks. -/
def goTo (c : Control) (place : Place) : Verdict := .proceed ⟨place, c.blocks⟩

/-- Goes on with a place if the kind of the token is the one that is due. -/
def expect (c : Control) (k due : Kind) (place : Place) (e : Expectation) : Verdict :=
  if k = due then c.goTo place else .reject e

/-- Reads the first token of a statement, or the end of the innermost block, or the
end of the program. -/
def reactAtStatement (c : Control) : Kind → Verdict
  | .keyword .PRINT => c.goTo .printItem
  | .keyword .IF => c.goTo (.operand (.tested .conditional))
  | .keyword .WHILE => c.goTo (.operand (.tested .loop))
  | .keyword .LABEL => c.goTo .labelName
  | .keyword .GOTO => c.goTo .jumpName
  | .keyword .LET => c.goTo .assignedName
  | .keyword .INPUT => c.goTo .inputName
  | .endOfInput =>
    match c.blocks with
    | [] => .complete
    | block :: _ => .reject (.keyword block.closer)
  | k =>
    match c.blocks with
    | [] => .reject .statement
    | block :: outer =>
      if k = .keyword block.closer then .proceed ⟨.lineEnd false, outer⟩ else .reject .statement

/-- Reads a token behind an operand. -/
def reactAtOperator (c : Control) (k : Kind) (p : Purpose) : Verdict :=
  if k.isArithmetic then c.goTo (.operand p)
  else
    match p with
    | .tested b | .compared b =>
      if k.isComparison then c.goTo (.operand (.compared b)) else .reject .comparison
    | .printed | .assigned => .reject .newline

/-- Reads a token at a place where it is to be read. -/
def reactSettled (c : Control) (k : Kind) : Verdict :=
  match c.place with
  | .beginning => c.expect k .newline .beginning .newline
  | .statement => c.reactAtStatement k
  | .printItem => c.expect k .string (.lineEnd false) .operand
  | .operand p =>
    if k.isSign then c.goTo (.signed p)
    else if k.isOperand then c.goTo (.operator p)
    else .reject .operand
  | .signed p => if k.isOperand then c.goTo (.operator p) else .reject .operand
  | .operator p => c.reactAtOperator k p
  | .opener b =>
    if k = .keyword b.opener then .proceed ⟨.lineEnd true, b :: c.blocks⟩
    else .reject (.keyword b.opener)
  | .labelName => c.expect k .identifier (.lineEnd false) .labelName
  | .jumpName => c.expect k .identifier (.lineEnd false) .labelName
  | .assignedName => c.expect k .identifier .equalsSign .variableName
  | .equalsSign => c.expect k (.operator .assign) (.operand .assigned) .equalsSign
  | .inputName => c.expect k .identifier (.lineEnd false) .variableName
  | .lineEnd opens => c.expect k .newline (.blankLines opens) .newline
  | .blankLines opens => c.expect k .newline (.blankLines opens) .newline

/-- Goes on to the place where a token of the given kind is read. -/
def settle (c : Control) (k : Kind) : Control := { c with place := c.place.settle k }

/-- Reads a token of the given kind. -/
def react (c : Control) (k : Kind) : Verdict := (c.settle k).reactSettled k

/-- The end of the input is never read over: it completes the program or is
rejected. -/
theorem react_endOfInput_ne_proceed (c next : Control) :
    c.react .endOfInput ≠ .proceed next := by
  obtain ⟨place, blocks⟩ := c
  intro h
  cases place <;>
    simp [react, settle, Place.settle, reactSettled, expect, reactAtStatement,
      reactAtOperator, Kind.isSign, Kind.isOperand, Kind.isArithmetic,
      Kind.isComparison] at h
  case beginning => cases blocks <;> simp at h
  case statement => cases blocks <;> simp at h
  case blankLines => cases blocks <;> simp at h
  case operator p =>
    cases p <;> simp at h

end Control
end PocketBasic

import PocketBasic.Grammar.Control

/-!
# Syntax trees

The grammar of the language as a family of inductive types: a type for every
nonterminal, a constructor for every production, and a leaf for every token.  A tree
cannot be ill-formed, because every leaf carries the proof that its token has the kind
that stands in the production.  So to derive a list of tokens from a nonterminal is to
give a tree of its type that spells the list:

    program    ::= statement*
    statement  ::= form newline+ | block
    form       ::= PRINT string | PRINT expression | LABEL name | GOTO name
                 | LET name = expression | INPUT name
    block      ::= IF comparison THEN newline+ statement* ENDIF newline+
                 | WHILE comparison REPEAT newline+ statement* ENDWHILE newline+
    comparison ::= expression ((== | != | < | <= | > | >=) expression)+
    expression ::= term ((+ | -) term)*
    term       ::= unary ((* | /) unary)*
    unary      ::= (+ | -)? primary
    primary    ::= number | name

Nothing here depends on how programs are read: the trees are the second side of what is
said about reading and translating.
-/

namespace PocketBasic

/-! ## Leaves -/

/-- A token whose kind passes a test. -/
abbrev TokenOf (p : Kind → Prop) : Type := { t : Token // p t.kind }

/-- A token of one kind. -/
abbrev Terminal (k : Kind) : Type := TokenOf (· = k)

theorem TokenOf.kind_ne {p : Kind → Bool} {k : Kind} (t : TokenOf (p ·)) (h : p k = false) :
    t.1.kind ≠ k := by
  intro hk
  have ht : p t.1.kind = true := t.2
  rw [hk, h] at ht
  cases ht

theorem Terminal.kind_ne {k k' : Kind} (t : Terminal k) (h : k ≠ k') : t.1.kind ≠ k' := by
  rw [t.2]
  exact h

/-- Whether tokens of the kind multiply or divide. -/
def Kind.isFactor : Kind → Bool
  | .operator .times | .operator .divide => true
  | _ => false

theorem Kind.isArithmetic_eq (k : Kind) : k.isArithmetic = (k.isSign || k.isFactor) := by
  rcases k with _ | _ | _ | _ | _ | _ | o
  case operator => cases o <;> rfl
  all_goals rfl

theorem Kind.isArithmetic_of_isComparison {k : Kind} (h : k.isComparison) :
    k.isArithmetic = false := by
  rcases k with _ | _ | _ | _ | _ | _ | o
  case operator => cases o <;> first | rfl | cases h
  all_goals rfl

/-! ## Expressions -/

/-- `primary ::= number | name` -/
inductive Primary where
  | number (digits : Terminal .number)
  | name (t : Terminal .identifier)

/-- `unary ::= (+ | -)? primary` -/
structure Unary where
  sign : Option (TokenOf (·.isSign))
  operand : Primary

/-- One or more operands with operators between them. -/
inductive Chain (p : Kind → Prop) (α : Type) where
  | last (a : α)
  | link (a : α) (operator : TokenOf p) (rest : Chain p α)

/-- `term ::= unary ((* | /) unary)*` -/
abbrev Term : Type := Chain (·.isFactor) Unary

/-- `expression ::= term ((+ | -) term)*` -/
abbrev Expression : Type := Chain (·.isSign) Term

/-- `comparison ::= expression ((== | != | < | <= | > | >=) expression)+` -/
structure Comparison where
  first : Expression
  operator : TokenOf (·.isComparison)
  rest : Chain (·.isComparison) Expression

/-! ## Statements -/

/-- One or more line ends. -/
structure LineEnds where
  first : Terminal .newline
  more : List (Terminal .newline)

/-- The statements that hold no others. -/
inductive Form where
  | printString (word : Terminal (.keyword .PRINT)) (text : Terminal .string)
  | printValue (word : Terminal (.keyword .PRINT)) (value : Expression)
  | label (word : Terminal (.keyword .LABEL)) (name : Terminal .identifier)
  | jump (word : Terminal (.keyword .GOTO)) (name : Terminal .identifier)
  | assign (word : Terminal (.keyword .LET)) (name : Terminal .identifier)
      (equals : Terminal (.operator .assign)) (value : Expression)
  | input (word : Terminal (.keyword .INPUT)) (name : Terminal .identifier)

/-- The word that begins a block. -/
def Block.word : Block → Keyword
  | .conditional => .IF
  | .loop => .WHILE

/-- What stands before the statements of a block: the condition and the words around
it. -/
structure BlockHead (b : Block) where
  word : Terminal (.keyword b.word)
  test : Comparison
  opener : Terminal (.keyword b.opener)
  ends : LineEnds

/-- What stands behind the statements of a block. -/
structure BlockEnd (b : Block) where
  closer : Terminal (.keyword b.closer)
  ends : LineEnds

/-- A statement with the line ends behind it. -/
inductive Statement where
  | simple (form : Form) (ends : LineEnds)
  | block (b : Block) (head : BlockHead b) (body : List Statement) (foot : BlockEnd b)

/-- `program ::= statement*` -/
abbrev Program : Type := List Statement

/-- Induction over programs: a program is empty, or begins with a simple statement, or
begins with a block, whose body is a program too. -/
@[elab_as_elim]
theorem Program.induction {motive : Program → Prop} (nil : motive [])
    (simple : ∀ form ends rest, motive rest → motive (.simple form ends :: rest))
    (block : ∀ b head body foot rest, motive body → motive rest →
      motive (.block b head body foot :: rest)) : ∀ p, motive p
  | [] => nil
  | .simple form ends :: rest => simple form ends rest (induction nil simple block rest)
  | .block b head body foot :: rest =>
    block b head body foot rest (induction nil simple block body)
      (induction nil simple block rest)

/-! ## What a tree spells -/

/-- The tokens of leaves. -/
def leafTokens {p : Kind → Prop} (leaves : List (TokenOf p)) : List Token :=
  leaves.map Subtype.val

namespace Primary

/-- The tokens that a primary spells. -/
def tokens : Primary → List Token
  | number digits => [digits.1]
  | name t => [t.1]

/-- The variables that a primary uses. -/
def uses : Primary → List Token
  | number _ => []
  | name t => [t.1]

end Primary

namespace Unary

/-- The tokens that an operand with its sign spells. -/
def tokens (u : Unary) : List Token := leafTokens u.sign.toList ++ u.operand.tokens

/-- The variables that an operand uses. -/
def uses (u : Unary) : List Token := u.operand.uses

end Unary

namespace Chain

variable {p : Kind → Prop} {α : Type}

/-- The tokens that a chain spells, if its operands spell what `f` says. -/
def tokensWith (f : α → List Token) : Chain p α → List Token
  | last a => f a
  | link a operator rest => f a ++ operator.1 :: rest.tokensWith f

/-- The operands of a chain. -/
def operands : Chain p α → List α
  | last a => [a]
  | link a _ rest => a :: rest.operands

end Chain

/-- The tokens that a term spells. -/
def Term.tokens (t : Term) : List Token := t.tokensWith Unary.tokens

/-- The variables that a term uses, in their order. -/
def Term.uses (t : Term) : List Token := t.operands.flatMap Unary.uses

/-- The tokens that an expression spells. -/
def Expression.tokens (e : Expression) : List Token := e.tokensWith Term.tokens

/-- The variables that an expression uses, in their order. -/
def Expression.uses (e : Expression) : List Token := e.operands.flatMap Term.uses

namespace Comparison

/-- The tokens that a comparison spells. -/
def tokens (c : Comparison) : List Token :=
  c.first.tokens ++ c.operator.1 :: c.rest.tokensWith Expression.tokens

/-- The variables that a comparison uses, in their order. -/
def uses (c : Comparison) : List Token :=
  c.first.uses ++ c.rest.operands.flatMap Expression.uses

end Comparison

/-- The tokens of line ends. -/
def LineEnds.tokens (l : LineEnds) : List Token := l.first.1 :: leafTokens l.more

/-- The tokens that a simple statement spells, without its line ends. -/
def Form.tokens : Form → List Token
  | printString word text => [word.1, text.1]
  | printValue word value => word.1 :: value.tokens
  | label word name => [word.1, name.1]
  | jump word name => [word.1, name.1]
  | assign word name equals value => word.1 :: name.1 :: equals.1 :: value.tokens
  | input word name => [word.1, name.1]

/-- The tokens before the statements of a block. -/
def BlockHead.tokens {b : Block} (h : BlockHead b) : List Token :=
  h.word.1 :: (h.test.tokens ++ h.opener.1 :: h.ends.tokens)

/-- The tokens behind the statements of a block. -/
def BlockEnd.tokens {b : Block} (f : BlockEnd b) : List Token := f.closer.1 :: f.ends.tokens

/-- The tokens that a program spells. -/
def Program.tokens : Program → List Token
  | [] => []
  | .simple form ends :: rest => form.tokens ++ ends.tokens ++ tokens rest
  | .block _ head body foot :: rest =>
    head.tokens ++ tokens body ++ foot.tokens ++ tokens rest

end PocketBasic

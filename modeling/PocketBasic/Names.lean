import PocketBasic.Location

/-!
# Names

A program declares variables and labels and jumps to labels.  Variables come into
being with their first assignment, and a label may be declared after a jump to it,
so what a translation knows of names grows as it reads.

The declarations are kept in one list, in the order in which they were read.  The
variables, the labels and the order in which both are reported are all read off
it.
-/

namespace PocketBasic

/-- A declaration of a name. -/
inductive Declaration where
  | ofVariable (name : String)
  | ofLabel (name : String) (place : Location)
  deriving DecidableEq, Repr

/-- The names that a program has declared and jumped to so far. -/
structure Names where
  /-- The declarations, the oldest first. -/
  declared : List Declaration
  /-- The labels jumped to, each with its first jump, the oldest first. -/
  jumps : List (String × Location)
  deriving DecidableEq, Repr

namespace Names

/-- No names at all. -/
def empty : Names := ⟨[], []⟩

/-- The declared variables, the oldest first. -/
def variableNames (n : Names) : List String :=
  n.declared.filterMap fun
    | .ofVariable name => some name
    | .ofLabel _ _ => none

/-- The declared labels and where they stand, the oldest first. -/
def labels (n : Names) : List (String × Location) :=
  n.declared.filterMap fun
    | .ofVariable _ => none
    | .ofLabel name place => some (name, place)

/-- Adds a declaration. -/
def declare (n : Names) (d : Declaration) : Names := { n with declared := n.declared ++ [d] }

/-- Adds a jump, unless the label was jumped to before. -/
def jump (n : Names) (name : String) (place : Location) : Names :=
  if (n.jumps.lookup name).isSome then n else { n with jumps := n.jumps ++ [(name, place)] }

/-- The first jump to a label that is not declared. -/
def danglingJump? (n : Names) : Option (String × Location) :=
  n.jumps.find? fun j => (n.labels.lookup j.1).isNone

/-- The declared variables in the order of their characters. -/
def sortedVariables (n : Names) : List String := n.variableNames.mergeSort fun a b => a ≤ b

@[simp] theorem variableNames_declare_ofVariable (n : Names) (name : String) :
    (n.declare (.ofVariable name)).variableNames = n.variableNames ++ [name] := by
  simp [declare, variableNames]

@[simp] theorem variableNames_declare_ofLabel (n : Names) (name : String) (place : Location) :
    (n.declare (.ofLabel name place)).variableNames = n.variableNames := by
  simp [declare, variableNames]

@[simp] theorem labels_declare_ofVariable (n : Names) (name : String) :
    (n.declare (.ofVariable name)).labels = n.labels := by
  simp [declare, labels]

@[simp] theorem labels_declare_ofLabel (n : Names) (name : String) (place : Location) :
    (n.declare (.ofLabel name place)).labels = n.labels ++ [(name, place)] := by
  simp [declare, labels]

end Names
end PocketBasic

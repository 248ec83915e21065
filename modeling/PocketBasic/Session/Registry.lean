/-!
# Registries

A session creates things and refers to them by name.  A registry numbers the things
of one kind in the order of their creation and never forgets one, so a thing that
holds on to another by its number keeps it even if the name is given away.
-/

namespace PocketBasic

/-- The things of one kind in a session, with their names. -/
structure Registry (α : Type) where
  /-- The things, in the order of their creation. -/
  items : List α
  /-- The names and the numbers of the things that they stand for, the newest
  first. -/
  names : List (String × Nat)
  deriving Repr

namespace Registry

variable {α : Type}

/-- The registry that holds nothing. -/
def empty : Registry α := ⟨[], []⟩

/-- Adds a thing under a name. -/
def add (r : Registry α) (name : String) (a : α) : Registry α :=
  ⟨r.items ++ [a], (name, r.items.length) :: r.names⟩

/-- The thing with a number. -/
def get? (r : Registry α) (i : Nat) : Option α := r.items[i]?

/-- The thing with a name, and its number. -/
def find? (r : Registry α) (name : String) : Option (Nat × α) := do
  let i ← r.names.lookup name
  let a ← r.get? i
  pure (i, a)

/-- Puts a thing in the place of the one with a number. -/
def set (r : Registry α) (i : Nat) (a : α) : Registry α := { r with items := r.items.set i a }

theorem get?_set_of_ne (r : Registry α) {i j : Nat} (h : i ≠ j) (a : α) :
    (r.set i a).get? j = r.get? j := by
  simp [set, get?, h]

theorem get?_add_of_lt (r : Registry α) {j : Nat} (h : j < r.items.length) (name : String)
    (a : α) : (r.add name a).get? j = r.get? j := by
  simp [add, get?, List.getElem?_append_left h]

end Registry
end PocketBasic

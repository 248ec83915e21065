import PocketBasic.Path

/-!
# Files and directories

A program is read from one file and its translation is written to another.  What
the compiler needs of a file system is little: read a whole file, write a whole
file, and ask whether a text names a directory.  `Disk` is that interface, over any
monad, so that the same compiler runs on a real disk and on a tree of files held in
memory.

`FileTree` is the tree in memory.  It is also the theory of the reasons for which
an access is refused: the text of a path is walked piece by piece, every piece but
the last must lead to a directory that is there, and the first obstacle on the way
is the reason that is given.  The walk starts at the root if the text starts with a
slash and at the working directory, `FileTree.working`, if it does not; `..` leads
to the directory that holds the present one, and at the root it stays there.

An address is the list of names on the way from the root to an entry, the innermost
first, so that the directory that holds an entry is the tail of its address.

## Why the walk is one over texts

A path in normal form has lost its doubled and trailing slashes and its `.`, and
the system has not.  A slash after the name of a file asks for a directory, and a
text that is too long is refused for its length, though its normal form is short.
So the tree answers for texts as they are written, and what is asked for a path is
asked for its text.
-/

namespace PocketBasic

/-- Why the system refuses an access. -/
inductive Refusal where
  | notFound
  | isDirectory
  | notDirectory
  | nameTooLong
  | alreadyExists
  | other (reason : String)
  deriving DecidableEq, Repr

/-- The system's wording of a reason. -/
def Refusal.reason : Refusal → String
  | notFound => "No such file or directory"
  | isDirectory => "Is a directory"
  | notDirectory => "Not a directory"
  | nameTooLong => "File name too long"
  | alreadyExists => "File exists"
  | other reason => reason

/-- What the compiler asks of a file system. -/
structure Disk (m : Type → Type) where
  /-- The content of the file at a path. -/
  read : Path → m (Except Refusal (List UInt8))
  /-- Makes the file at a path hold these bytes and no others. -/
  write : Path → List UInt8 → m (Except Refusal Unit)
  /-- Whether a text names a directory that is there. -/
  isDirectory : String → m Bool

/-- What stands at an address. -/
inductive Entry where
  | directory
  | file (bytes : List UInt8)
  deriving DecidableEq, Repr

/-- The names on the way to an entry, the innermost first. -/
abbrev Address := List String

/-- A tree of files below one directory, the root, which is always there. -/
structure FileTree where
  entries : List (Address × Entry)
  deriving DecidableEq, Repr

namespace FileTree

/-- The working directory, where the walk of a relative path starts. -/
def working : Address := ["session", "tmp"]

/-- The tree with nothing below its working directory. -/
def empty : FileTree := ⟨[(working, .directory), (working.tail, .directory)]⟩

/-- The entry at an address, if there is one. -/
def get? (t : FileTree) : Address → Option Entry
  | [] => some .directory
  | address => t.entries.lookup address

/-- Puts an entry at an address, in the place of what stood there. -/
def put (t : FileTree) (address : Address) (e : Entry) : FileTree :=
  ⟨(address, e) :: t.entries.filter fun entry => entry.1 ≠ address⟩

theorem lookup_filter_ne {address other : Address} (h : other ≠ address)
    (entries : List (Address × Entry)) :
    (entries.filter fun entry => entry.1 ≠ address).lookup other = entries.lookup other := by
  induction entries with
  | nil => rfl
  | cons entry later ih =>
    obtain ⟨a, e⟩ := entry
    by_cases ha : a = address
    · have hn : (other == a) = false := by simpa [ha] using h
      rw [List.filter_cons_of_neg (by simp [ha]), ih, List.lookup_cons, hn]
    · rw [List.filter_cons_of_pos (by simp [ha]), List.lookup_cons, List.lookup_cons, ih]

/-- A put is seen at its own address and nowhere else. -/
theorem get?_put (t : FileTree) {address : Address} (h : address ≠ []) (e : Entry)
    (other : Address) :
    (t.put address e).get? other = if other = address then some e else t.get? other := by
  cases other with
  | nil => simp [get?, h.symm]
  | cons name rest =>
    by_cases ho : name :: rest = address
    · simp [get?, put, ho]
    · have hb : (name :: rest == address) = false := by simpa using ho
      simp only [get?, put, ho, if_false, List.lookup_cons, hb]
      exact lookup_filter_ne ho t.entries

/-- The longest name that a directory can hold, in bytes. -/
def maxNameBytes : Nat := 255

/-- The length, in bytes, from which on a whole path is refused. -/
def maxPathBytes : Nat := 4096

/-- Where the walk of a text starts. -/
def startOf (text : String) : Address := if text.toList.head? = some '/' then [] else working

/-- The pieces between the slashes of a text. -/
def piecesOf (text : String) : List String := (text.toList.splitOn '/').map String.ofList

/-- Walks pieces of a path from a directory on.  The result is the address that they
lead to and what stands there; nothing may stand there only if the walk needs
nothing of it. -/
def walk (t : FileTree) (here : Address) : List String → Except Refusal (Address × Option Entry)
  | [] => .ok (here, some .directory)
  | piece :: rest =>
    if piece = "" ∨ piece = "." then t.walk here rest
    else if piece = ".." then t.walk here.tail rest
    else if maxNameBytes < piece.utf8ByteSize then .error .nameTooLong
    else
      match t.get? (piece :: here) with
      | some .directory => t.walk (piece :: here) rest
      | some (.file bytes) =>
        if rest = [] then .ok (piece :: here, some (.file bytes)) else .error .notDirectory
      | none => if rest = [] then .ok (piece :: here, none) else .error .notFound

/-- Walks a whole text.  The empty text leads nowhere. -/
def locate (t : FileTree) (text : String) : Except Refusal (Address × Option Entry) :=
  if text = "" then .error .notFound
  else if maxPathBytes ≤ text.utf8ByteSize then .error .nameTooLong
  else t.walk (startOf text) (piecesOf text)

/-- The content of the file that a text leads to. -/
def read (t : FileTree) (text : String) : Except Refusal (List UInt8) :=
  match t.locate text with
  | .ok (_, some (.file bytes)) => .ok bytes
  | .ok (_, some .directory) => .error .isDirectory
  | .ok (_, none) => .error .notFound
  | .error refusal => .error refusal

/-- The tree after a write to the file that a text leads to, which need not be there
before, though the directory that holds it must. -/
def write (t : FileTree) (text : String) (bytes : List UInt8) : Except Refusal FileTree :=
  match t.locate text with
  | .ok (_, some .directory) => .error .isDirectory
  | .ok (address, _) => .ok (t.put address (.file bytes))
  | .error refusal => .error refusal

/-- Whether a text leads to a directory. -/
def isDirectory (t : FileTree) (text : String) : Bool :=
  match t.locate text with
  | .ok (_, some .directory) => true
  | _ => false

/-- Walks pieces of a path from a directory on and makes the directories that are
missing.  Each is asked for by the beginning of the text that ends with its name, of
which `spent` bytes come before the piece, so the limit of a whole path is met only
where that beginning is too long. -/
def makeBelow (t : FileTree) (here : Address) (spent : Nat) :
    List String → Option Refusal × FileTree
  | [] => (none, t)
  | piece :: rest =>
    if maxPathBytes ≤ spent + piece.utf8ByteSize then (some .nameTooLong, t)
    else
      let spent := spent + piece.utf8ByteSize + 1
      if piece = "" ∨ piece = "." then t.makeBelow here spent rest
      else if piece = ".." then t.makeBelow here.tail spent rest
      else if maxNameBytes < piece.utf8ByteSize then (some .nameTooLong, t)
      else
        match t.get? (piece :: here) with
        | some .directory => t.makeBelow (piece :: here) spent rest
        | some (.file _) => (some (if rest = [] then .alreadyExists else .notDirectory), t)
        | none => (t.put (piece :: here) .directory).makeBelow (piece :: here) spent rest

/-- Makes the directory that a text leads to, with those that it stands in.  Those
made before an obstacle stay. -/
def makeDirectories (t : FileTree) (text : String) : Option Refusal × FileTree :=
  if text = "" then (some .notFound, t) else t.makeBelow (startOf text) 0 (piecesOf text)

/-- The text of an address from the working directory on, if it lies below. -/
def relativeText (address : Address) : Option String :=
  if working.isSuffixOf address ∧ address ≠ working then
    some (String.intercalate "/" (address.take (address.length - working.length)).reverse)
  else none

/-- The name of an entry from the working directory on, if it lies below, with a
slash after that of a directory. -/
def listedName : Address × Entry → Option String
  | (address, .directory) => (relativeText address).map (· ++ "/")
  | (address, .file _) => relativeText address

/-- The names of all entries below the working directory, in the order of their
characters. -/
def listing (t : FileTree) : List String :=
  (t.entries.filterMap listedName).mergeSort fun a b => a ≤ b

/-- The tree in memory as a disk. -/
def disk : Disk (StateM FileTree) where
  read p := fun t => (t.read (toString p), t)
  write p bytes := fun t =>
    match t.write (toString p) bytes with
    | .ok written => (.ok (), written)
    | .error refusal => (.error refusal, t)
  isDirectory text := fun t => (t.isDirectory text, t)

end FileTree
end PocketBasic

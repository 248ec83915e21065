import PocketBasic.CommandLine.Run

/-!
# The command `ttc`

The outer layer of the command: it gives the compiler the disk of the machine, and
prints what the run leaves.
-/

namespace PocketBasic

/-- The number of a system error, which may be reported with either sign. -/
def errorNumber (code : UInt32) : Nat := (min code (0 - code)).toNat

/-- The reason for which the system refused an access. -/
def refusalOf : IO.Error → Refusal
  | .noFileOrDirectory _ _ _ => .notFound
  | .alreadyExists _ _ _ => .alreadyExists
  | .inappropriateType _ code details =>
    match errorNumber code with
    | 20 => .notDirectory
    | 21 => .isDirectory
    | _ => .other details
  | .invalidArgument _ code details =>
    if errorNumber code = 36 then .nameTooLong else .other details
  | .permissionDenied _ _ details => .other details
  | e => .other (toString e)

/-- Does something with the disk, and tells if it was refused. -/
def attempt {α : Type} (action : IO α) : IO (Except Refusal α) := do
  try
    pure (.ok (← action))
  catch e => pure (.error (refusalOf e))

/-- The disk of the machine.  A directory is known by its refusal to be read. -/
def machineDisk : Disk IO where
  read path := do
    let content ← attempt (IO.FS.readBinFile (toString path))
    pure (content.map fun bytes => bytes.toList)
  write path bytes :=
    attempt (IO.FS.writeBinFile (toString path) ⟨bytes.toArray⟩)
  isDirectory text := do
    let probe ← attempt do
      let handle ← IO.FS.Handle.mk text .read
      handle.read 1
    match probe with
    | .error .isDirectory => pure true
    | _ => pure false

end PocketBasic

/-- Runs the command. -/
def main (arguments : List String) : IO UInt32 := do
  let outcome ← PocketBasic.CommandLine.run PocketBasic.machineDisk arguments
  IO.print outcome.output
  IO.eprint outcome.errors
  pure outcome.status.toUInt32

import PocketBasic.Text.Quoted
import PocketBasic.Text.Similarity

/-!
# Command-line arguments

The arguments are read from left to right.  One that starts with a hyphen and is
longer than that is an option, unless `--` came before it; all others are operands,
of which the command takes none.

A long option may have its value behind an equals sign, and any option that takes a
value takes the next argument, whatever it looks like.  Short options may stand
together behind one hyphen, and one that takes a value takes what is left of the
argument.

Reading stops at the first argument that is wrong.  What the options mean together
is checked after all of them were read.
-/

namespace PocketBasic
namespace CommandLine

/-- The options of the command. -/
inductive Switch where
  | file
  | output
  | tokens
  | verbose
  | version
  | help
  deriving DecidableEq, Repr

namespace Switch

/-- All options, in the order in which help shows them. -/
def all : List Switch := [file, output, tokens, verbose, version, help]

/-- The long form of an option. -/
def long : Switch → String
  | file => "--file"
  | output => "--output"
  | tokens => "--tokens"
  | verbose => "--verbose"
  | version => "--version"
  | help => "--help"

/-- The letter of the short form of an option, if it has one. -/
def letter? : Switch → Option Char
  | file => some 'f'
  | output => some 'o'
  | verbose => some 'v'
  | _ => none

/-- Whether an option takes a value. -/
def takesValue : Switch → Bool
  | file | output => true
  | _ => false

/-- Whether an option acts as soon as the arguments are read. -/
def isImmediate : Switch → Bool
  | version | help => true
  | _ => false

/-- The option with a long form, if there is one. -/
def ofLong? (text : String) : Option Switch := all.find? fun s => s.long = text

/-- The option with a letter, if there is one. -/
def ofLetter? (c : Char) : Option Switch := all.find? fun s => s.letter? = some c

/-- What messages call an option: its forms, each between quotes. -/
def forms (s : Switch) : String :=
  match s.letter? with
  | some c => "'-" ++ c.toString ++ "' / '" ++ s.long ++ "'"
  | none => "'" ++ s.long ++ "'"

end Switch

/-- What can be wrong with the arguments. -/
inductive UsageError where
  | unknownOption (name : String) (similar : List String)
  | valueMissing (name : String)
  | valueGiven (name : String)
  | fileMissing
  | directory (s : Switch) (path : String)
  | extraOperands (operands : List String)
  deriving DecidableEq, Repr

namespace UsageError

/-- The wording of an error. -/
def description : UsageError → String
  | unknownOption name [] => "No such option: " ++ name
  | unknownOption name [similar] =>
    "No such option: " ++ name ++ " Did you mean " ++ similar ++ "?"
  | unknownOption name similar =>
    "No such option: " ++ name ++ " (Possible options: " ++ String.intercalate ", " similar ++ ")"
  | valueMissing name => "Option " ++ Text.quote name ++ " requires an argument."
  | valueGiven name => "Option " ++ Text.quote name ++ " does not take a value."
  | fileMissing => "Missing option " ++ Switch.file.forms ++ "."
  | directory s path =>
    "Invalid value for " ++ s.forms ++ ": File " ++ Text.quote path ++ " is a directory."
  | extraOperands [operand] => "Got unexpected extra argument (" ++ operand ++ ")"
  | extraOperands operands =>
    "Got unexpected extra arguments (" ++ String.intercalate " " operands ++ ")"

/-- Whether the usage of the command is shown before the error.  It is not if an
option was written in the wrong form. -/
def showsUsage : UsageError → Bool
  | valueMissing _ | valueGiven _ => false
  | _ => true

end UsageError

/-- An option as it was given, with its value if it takes one. -/
structure Given where
  switch : Switch
  value : String
  deriving DecidableEq, Repr

/-- The arguments of a command: the options given and the operands, both in order. -/
structure Arguments where
  given : List Given
  operands : List String
  deriving DecidableEq, Repr

namespace Arguments

/-- Takes the value of an option from the next argument. -/
def takeValue (s : Switch) (name : String) :
    List String → Except UsageError (List Given × List String)
  | [] => .error (.valueMissing name)
  | value :: rest => .ok ([⟨s, value⟩], rest)

/-- Reads an option in its long form, with the value behind an equals sign if there
is one. -/
def readLong (s : Switch) (value? : Option String) (rest : List String) :
    Except UsageError (List Given × List String) :=
  match s.takesValue, value? with
  | true, some value => .ok ([⟨s, value⟩], rest)
  | true, none => takeValue s s.long rest
  | false, some _ => .error (.valueGiven s.long)
  | false, none => .ok ([⟨s, ""⟩], rest)

/-- Reads the letters behind a hyphen. -/
def readLetters : List Char → List String → Except UsageError (List Given × List String)
  | [], rest => .ok ([], rest)
  | c :: letters, rest =>
    match Switch.ofLetter? c with
    | none => .error (.unknownOption ("-" ++ c.toString) [])
    | some s =>
      if s.takesValue then
        if letters = [] then takeValue s ("-" ++ c.toString) rest
        else .ok ([⟨s, String.ofList letters⟩], rest)
      else
        match readLetters letters rest with
        | .error e => .error e
        | .ok (given, rest) => .ok (⟨s, ""⟩ :: given, rest)

/-- Divides an option at its first equals sign. -/
def splitValue (option : List Char) : String × Option String :=
  match option.dropWhile (· ≠ '=') with
  | '=' :: value => (String.ofList (option.takeWhile (· ≠ '=')), some (String.ofList value))
  | _ => (String.ofList option, none)

/-- Reads the option at the front of the arguments.  The options that it holds are
taken off with the arguments that are their values. -/
def readOption (option : List Char) (rest : List String) :
    Except UsageError (List Given × List String) :=
  let (name, value?) := splitValue option
  match Switch.ofLong? name with
  | some s => readLong s value? rest
  | none =>
    match option with
    | '-' :: '-' :: _ =>
      .error (.unknownOption name (Text.similarWords name (Switch.all.map Switch.long)))
    | _ => readLetters option.tail rest

theorem length_takeValue_le {s : Switch} {name : String} {rest left : List String}
    {given : List Given} (h : takeValue s name rest = .ok (given, left)) :
    left.length ≤ rest.length := by
  cases rest with
  | nil => cases h
  | cons value rest =>
    obtain ⟨-, rfl⟩ := Prod.mk.inj (Except.ok.inj h)
    exact Nat.le_succ _

theorem length_readLong_le {s : Switch} {value? : Option String} {rest left : List String}
    {given : List Given} (h : readLong s value? rest = .ok (given, left)) :
    left.length ≤ rest.length := by
  unfold readLong at h
  split at h
  · obtain ⟨-, rfl⟩ := Prod.mk.inj (Except.ok.inj h)
    exact Nat.le_refl _
  · exact length_takeValue_le h
  · cases h
  · obtain ⟨-, rfl⟩ := Prod.mk.inj (Except.ok.inj h)
    exact Nat.le_refl _

theorem length_readLetters_le {letters : List Char} {rest left : List String}
    {given : List Given} (h : readLetters letters rest = .ok (given, left)) :
    left.length ≤ rest.length := by
  induction letters generalizing given with
  | nil =>
    obtain ⟨-, rfl⟩ := Prod.mk.inj (Except.ok.inj h)
    exact Nat.le_refl _
  | cons c letters ih =>
    unfold readLetters at h
    split at h
    · cases h
    · split at h
      · split at h
        · exact length_takeValue_le h
        · obtain ⟨-, rfl⟩ := Prod.mk.inj (Except.ok.inj h)
          exact Nat.le_refl _
      · split at h
        · cases h
        · rename_i heq
          obtain ⟨-, rfl⟩ := Prod.mk.inj (Except.ok.inj h)
          exact ih heq

/-- Reading an option leaves no more arguments than there were. -/
theorem length_readOption_le {option : List Char} {rest left : List String}
    {given : List Given} (h : readOption option rest = .ok (given, left)) :
    left.length ≤ rest.length := by
  unfold readOption at h
  dsimp only at h
  split at h
  · exact length_readLong_le h
  · split at h
    · cases h
    · exact length_readLetters_le h

/-- Whether an argument is an option. -/
def isOption (argument : String) : Bool :=
  match argument.toList with
  | '-' :: _ :: _ => true
  | _ => false

/-- Reads all arguments. -/
def read : List String → Except UsageError Arguments
  | [] => .ok ⟨[], []⟩
  | argument :: rest =>
    if argument = "--" then .ok ⟨[], rest⟩
    else if isOption argument then
      match _h : readOption argument.toList rest with
      | .error e => .error e
      | .ok (given, left) =>
        match read left with
        | .error e => .error e
        | .ok later => .ok { later with given := given ++ later.given }
    else
      match read rest with
      | .error e => .error e
      | .ok later => .ok { later with operands := argument :: later.operands }
termination_by arguments => arguments.length
decreasing_by
  · have := length_readOption_le _h
    simp only [List.length_cons]
    omega
  · simp

/-- The options given, without repetition, in the order of their first mention. -/
def mentioned (a : Arguments) : List Switch :=
  a.given.foldl (fun seen g => if g.switch ∈ seen then seen else seen ++ [g.switch]) []

/-- The value of an option: the last one given. -/
def value? (a : Arguments) (s : Switch) : Option String :=
  (a.given.reverse.find? fun g => g.switch = s).map Given.value

/-- Whether an option was given. -/
def has (a : Arguments) (s : Switch) : Bool := a.given.any fun g => g.switch = s

/-- The option that acts as soon as the arguments are read: the first one given of
those that do. -/
def immediate? (a : Arguments) : Option Switch := a.mentioned.find? Switch.isImmediate

end Arguments
end CommandLine
end PocketBasic

import PocketBasic.Token
import PocketBasic.Diagnostic

/-!
# Lexemes

A lexeme is the run of characters that one token is read from.  The first character
decides which rule applies, and every rule takes as many characters as it can: an
identifier ends where letters and digits end, a number where its digits end, an
operator of two characters is never read as one of one character, and a string ends
at its closing quote.

A rule that fails has still taken some characters, and reading goes on behind them.
How many is part of the rule: an unknown character and a lone `!` are taken, so are
a number and the point after it, and so is an unfinished string up to the character
that is at fault, which is left for the next reading.

Letters and digits are those of ASCII.
-/

namespace PocketBasic

/-- What comes of reading one lexeme: the number of characters taken, and the kind
and text of the token or the fault that was found. -/
structure Lexeme where
  width : Nat
  outcome : Except LexicalFault (Kind × String)

namespace Lexeme

/-- Whether a character separates tokens without being one. -/
def isBlank (c : Char) : Bool := c = ' ' || c = '\t' || c = '\r'

/-- Whether a character may stand in a string.  Texts are copied into a format
string of C, so what is special there is not allowed. -/
def isStringChar (c : Char) : Bool :=
  !(c = '"' || c = '\n' || c = '\r' || c = '\t' || c = '\\' || c = '%')

/-- A word is a keyword if it is exactly one of them, and else an identifier. -/
def kindOfWord (word : String) : Kind :=
  match Keyword.ofText? word with
  | some k => .keyword k
  | none => .identifier

/-- Reads an identifier or a keyword. -/
def readWord (text : List Char) : Lexeme :=
  let word := text.takeWhile Char.isAlphanum
  ⟨word.length, .ok (kindOfWord (String.ofList word), String.ofList word)⟩

/-- Reads a number: digits, and a point with more digits if there is one. -/
def readNumber (text : List Char) : Lexeme :=
  let whole := text.takeWhile Char.isDigit
  match text.dropWhile Char.isDigit with
  | '.' :: rest =>
    let fraction := rest.takeWhile Char.isDigit
    if fraction = [] then
      ⟨whole.length + 1, .error (.malformedNumber ((rest.head?.map Char.toString).getD "end of input"))⟩
    else
      ⟨whole.length + 1 + fraction.length,
        .ok (.number, String.ofList (whole ++ '.' :: fraction))⟩
  | _ => ⟨whole.length, .ok (.number, String.ofList whole)⟩

/-- Reads a string, given what follows its opening quote. -/
def readString (text : List Char) : Lexeme :=
  let body := text.takeWhile isStringChar
  match text.dropWhile isStringChar with
  | '"' :: _ => ⟨body.length + 2, .ok (.string, String.ofList body)⟩
  | [] | '\n' :: _ => ⟨body.length + 1, .error .unterminatedString⟩
  | c :: _ => ⟨body.length + 1, .error (.illegalInString c.toString)⟩

/-- The longest operator at the front of a text. -/
def operatorAt? : List Char → Option Operator
  | '=' :: '=' :: _ => some .equal
  | '!' :: '=' :: _ => some .notEqual
  | '<' :: '=' :: _ => some .lessEqual
  | '>' :: '=' :: _ => some .greaterEqual
  | '=' :: _ => some .assign
  | '<' :: _ => some .less
  | '>' :: _ => some .greater
  | '+' :: _ => some .plus
  | '-' :: _ => some .minus
  | '*' :: _ => some .times
  | '/' :: _ => some .divide
  | _ => none

/-- Reads an operator, or finds that the first character starts no token. -/
def readOperator (c : Char) (rest : List Char) : Lexeme :=
  match operatorAt? (c :: rest) with
  | some o => ⟨o.text.length, .ok (.operator o, o.text)⟩
  | none =>
    if c = '!' then
      ⟨1, .error (.malformedOperator "!=" (String.ofList ('!' :: rest.take 1)))⟩
    else ⟨1, .error (.invalidCharacter c)⟩

/-- Reads the lexeme at the front of a text that begins with neither a blank nor a
comment. -/
def read (c : Char) (rest : List Char) : Lexeme :=
  if c = '\n' then ⟨1, .ok (.newline, "\n")⟩
  else if c.isAlpha then readWord (c :: rest)
  else if c.isDigit then readNumber (c :: rest)
  else if c = '"' then readString rest
  else readOperator c rest

theorem width_readWord_pos {c : Char} (h : c.isAlpha) (rest : List Char) :
    0 < (readWord (c :: rest)).width := by
  simp [readWord, Char.isAlphanum, h]

theorem width_readNumber_pos {c : Char} (h : c.isDigit) (rest : List Char) :
    0 < (readNumber (c :: rest)).width := by
  have hw : 0 < ((c :: rest).takeWhile Char.isDigit).length := by simp [h]
  unfold readNumber
  dsimp only
  split
  · split <;> dsimp only <;> omega
  · exact hw

theorem width_readString_pos (text : List Char) : 0 < (readString text).width := by
  unfold readString
  dsimp only
  split <;> simp

theorem width_readOperator_pos (c : Char) (rest : List Char) :
    0 < (readOperator c rest).width := by
  unfold readOperator
  split
  · rename_i o _
    cases o <;> decide
  · split <;> simp

/-- Every reading takes at least one character. -/
theorem width_read_pos (c : Char) (rest : List Char) : 0 < (read c rest).width := by
  unfold read
  split
  · exact Nat.one_pos
  split
  · rename_i h
    exact width_readWord_pos h rest
  split
  · rename_i h
    exact width_readNumber_pos h rest
  split
  · exact width_readString_pos rest
  · exact width_readOperator_pos c rest

end Lexeme
end PocketBasic

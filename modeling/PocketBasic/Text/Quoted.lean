import PocketBasic.Text.Printable

/-!
# Quoted texts

Token dumps and several messages show a text between quotes, on one line and in
printable characters only.  The rule has two parts.

The quote is the apostrophe, unless the text holds an apostrophe and no double
quote: then the double quote spares the escape.  Inside, the backslash and the
chosen quote follow a backslash, line feed, carriage return and tab have their
letters, and any other character that is not printable is written as its code
point in hexadecimal, in the shortest of three widths.
-/

namespace PocketBasic
namespace Text

/-- The lowest `width` hexadecimal digits of a number, in lower case and with the
highest first. -/
def hexDigits : Nat → Nat → List Char
  | 0, _ => []
  | width + 1, n => hexDigits width (n / 16) ++ [Nat.digitChar (n % 16)]

theorem length_hexDigits (width n : Nat) : (hexDigits width n).length = width := by
  induction width generalizing n with
  | zero => rfl
  | succ width ih => simp [hexDigits, ih]

/-- A code point after a backslash: `\x` and two digits below U+0100, `\u` and
four below U+10000, `\U` and eight for the rest. -/
def escapeCodePoint (n : Nat) : List Char :=
  if n < 0x100 then '\\' :: 'x' :: hexDigits 2 n
  else if n < 0x10000 then '\\' :: 'u' :: hexDigits 4 n
  else '\\' :: 'U' :: hexDigits 8 n

/-- What is written for one character between quotes of the given kind. -/
def escapeChar (delimiter c : Char) : List Char :=
  if c = delimiter ∨ c = '\\' then ['\\', c]
  else if c = '\n' then ['\\', 'n']
  else if c = '\r' then ['\\', 'r']
  else if c = '\t' then ['\\', 't']
  else if isPrintable c then [c]
  else escapeCodePoint c.toNat

/-- The quote that a text is put between. -/
def quoteMark (text : List Char) : Char :=
  if '\'' ∈ text ∧ '"' ∉ text then '"' else '\''

/-- A text between quotes, in printable characters only. -/
def quoted (text : List Char) : List Char :=
  quoteMark text :: (text.flatMap (escapeChar (quoteMark text)) ++ [quoteMark text])

/-- The quoted form of a string. -/
def quote (text : String) : String := String.ofList (quoted text.toList)

end Text
end PocketBasic

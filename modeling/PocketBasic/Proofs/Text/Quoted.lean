import Mathlib.Algebra.Ring.Nat
import PocketBasic.Text.Quoted

/-!
# Quoted texts are read back

What stands between quotes can be read without knowing the text: the first character is the quote,
and it stands inside only behind a backslash.  What stands behind a backslash tells by its first
character what it is, a letter for a line end or a tab, a code point of two, four or eight digits,
or a character that is meant itself.

Main statement: reading a quoted text gives the text, and leaves what stands behind it
(`Text.unquote_quoted`).
-/

namespace PocketBasic
namespace Text

/-! ## Code points -/

/-- The number that a hexadecimal digit stands for. -/
def hexDigitValue (c : Char) : ℕ := if c.isDigit then c.toNat - '0'.toNat else c.toNat - 'a'.toNat + 10

/-- The number with some hexadecimal digits, the first one of which counts most. -/
def hexValue (digits : List Char) : ℕ := digits.foldl (fun n c => 16 * n + hexDigitValue c) 0

theorem hexDigitValue_digitChar : ∀ d < 16, hexDigitValue (Nat.digitChar d) = d := by decide

/-- The lowest digits of a number are read as what they leave of it. -/
theorem hexValue_hexDigits (width n : ℕ) : hexValue (hexDigits width n) = n % 16 ^ width := by
  induction width generalizing n with
  | zero => rw [Nat.pow_zero, Nat.mod_one]; rfl
  | succ width ih =>
    have hlast : hexValue (hexDigits width (n / 16) ++ [Nat.digitChar (n % 16)]) =
        16 * hexValue (hexDigits width (n / 16)) + hexDigitValue (Nat.digitChar (n % 16)) :=
      List.foldl_append
    rw [hexDigits, hlast, ih, hexDigitValue_digitChar _ (Nat.mod_lt n (by decide)), Nat.pow_succ,
      Nat.mul_comm (16 ^ width) 16, Nat.mod_mul, Nat.add_comm]

/-! ## Escapes -/

/-- How many digits a letter announces behind a backslash. -/
def escapeWidth? : Char → Option ℕ
  | 'x' => some 2
  | 'u' => some 4
  | 'U' => some 8
  | _ => none

/-- The character that a letter stands for behind a backslash, which may be itself. -/
def escapedChar : Char → Char
  | 'n' => '\n'
  | 'r' => '\r'
  | 't' => '\t'
  | c => c

/-- Reads what stands behind a backslash, from its first character and what stands behind it. -/
def unescape (c : Char) (behind : List Char) : Char × List Char :=
  match escapeWidth? c with
  | some width => (Char.ofNat (hexValue (behind.take width)), behind.drop width)
  | none => (escapedChar c, behind)

theorem length_unescape_le (c : Char) (behind : List Char) :
    (unescape c behind).2.length ≤ behind.length := by
  unfold unescape
  split
  · rw [List.length_drop]
    exact Nat.sub_le _ _
  · exact Nat.le_refl _

/-- Reads up to the closing quote, and gives the text and what stands behind the quote. -/
def readUpTo (mark : Char) : List Char → Option (List Char × List Char)
  | [] => none
  | c :: rest =>
    if c = mark then some ([], rest)
    else if c = '\\' then
      match rest with
      | [] => none
      | c :: behind =>
        (readUpTo mark (unescape c behind).2).map (Prod.map ((unescape c behind).1 :: ·) id)
    else (readUpTo mark rest).map (Prod.map (c :: ·) id)
termination_by text => text.length
decreasing_by
  · have := length_unescape_le c behind
    simp only [List.length_cons]
    omega
  · simp

/-- Reads a quoted text, and gives it and what stands behind it. -/
def unquote : List Char → Option (List Char × List Char)
  | [] => none
  | mark :: rest => readUpTo mark rest

/-! ## Reading back -/

variable {mark c : Char} {text behind : List Char}

/-- A quote is one of two characters. -/
def IsQuote (mark : Char) : Prop := mark = '\'' ∨ mark = '"'

theorem isQuote_quoteMark (text : List Char) : IsQuote (quoteMark text) := by
  unfold quoteMark
  split
  · exact .inr rfl
  · exact .inl rfl

theorem readUpTo_mark (behind : List Char) : readUpTo mark (mark :: behind) = some ([], behind) := by
  rw [readUpTo.eq_def]
  exact if_pos rfl

theorem readUpTo_plain (hmark : c ≠ mark) (hbackslash : c ≠ '\\') :
    readUpTo mark (c :: behind) = (readUpTo mark behind).map (Prod.map (c :: ·) id) := by
  rw [readUpTo.eq_def]
  exact (if_neg hmark).trans (if_neg hbackslash)

theorem readUpTo_backslash (hmark : IsQuote mark) (c : Char) (behind : List Char) :
    readUpTo mark ('\\' :: c :: behind) =
      (readUpTo mark (unescape c behind).2).map (Prod.map ((unescape c behind).1 :: ·) id) := by
  have hne : '\\' ≠ mark := by
    rcases hmark with rfl | rfl
    all_goals decide
  rw [readUpTo, if_neg hne, if_pos rfl]

/-- Digits behind their letter are read as the character whose code point they are. -/
theorem unescape_hexDigits {letter : Char} {width : ℕ} (hletter : escapeWidth? letter = some width)
    (hc : c.toNat < 16 ^ width) :
    unescape letter (hexDigits width c.toNat ++ behind) = (c, behind) := by
  have hlength : (hexDigits width c.toNat).length = width := length_hexDigits _ _
  unfold unescape
  rw [hletter]
  dsimp only
  rw [List.take_left' hlength, List.drop_left' hlength, hexValue_hexDigits, Nat.mod_eq_of_lt hc,
    Char.ofNat_toNat]

theorem exists_unescape_escapeCodePoint (c : Char) (behind : List Char) :
    ∃ letter digits, escapeCodePoint c.toNat = '\\' :: letter :: digits ∧
      unescape letter (digits ++ behind) = (c, behind) := by
  have hvalid : c.toNat < 16 ^ 8 := by
    rcases c.valid with h | ⟨_, h⟩
    · exact Nat.lt_trans h (by decide)
    · exact Nat.lt_trans h (by decide)
  unfold escapeCodePoint
  split_ifs with hbyte hword
  · exact ⟨_, _, rfl, unescape_hexDigits rfl hbyte⟩
  · exact ⟨_, _, rfl, unescape_hexDigits rfl hword⟩
  · exact ⟨_, _, rfl, unescape_hexDigits rfl hvalid⟩

/-- What is written for a character is read as the character. -/
theorem readUpTo_escapeChar (hmark : IsQuote mark) (c : Char) (behind : List Char) :
    readUpTo mark (escapeChar mark c ++ behind) =
      (readUpTo mark behind).map (Prod.map (c :: ·) id) := by
  unfold escapeChar
  split_ifs with hspecial hnewline hreturn htab hprintable
  · have hself : unescape c behind = (c, behind) := by
      rcases hspecial with rfl | rfl
      · rcases hmark with rfl | rfl
        all_goals rfl
      · rfl
    exact (readUpTo_backslash hmark c behind).trans (by rw [hself])
  · rw [hnewline]
    exact readUpTo_backslash hmark 'n' behind
  · rw [hreturn]
    exact readUpTo_backslash hmark 'r' behind
  · rw [htab]
    exact readUpTo_backslash hmark 't' behind
  · rw [not_or] at hspecial
    exact readUpTo_plain hspecial.1 hspecial.2
  · obtain ⟨letter, digits, hwritten, hread⟩ := exists_unescape_escapeCodePoint c behind
    rw [hwritten]
    exact (readUpTo_backslash hmark letter (digits ++ behind)).trans (by rw [hread])

theorem readUpTo_flatMap (hmark : IsQuote mark) (text behind : List Char) :
    readUpTo mark (text.flatMap (escapeChar mark) ++ mark :: behind) = some (text, behind) := by
  induction text with
  | nil => exact readUpTo_mark behind
  | cons c text ih =>
    rw [List.flatMap_cons, List.append_assoc, readUpTo_escapeChar hmark, ih]
    rfl

/-- A quoted text is read back. -/
theorem unquote_quoted (text behind : List Char) :
    unquote (quoted text ++ behind) = some (text, behind) := by
  have hquoted : quoted text ++ behind = quoteMark text ::
      (text.flatMap (escapeChar (quoteMark text)) ++ quoteMark text :: behind) := by
    rw [quoted, List.cons_append, List.append_assoc, List.singleton_append]
  rw [hquoted]
  exact readUpTo_flatMap (isQuote_quoteMark text) text behind

end Text
end PocketBasic

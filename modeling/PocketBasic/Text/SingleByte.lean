/-!
# Single-byte text

Source files and output files are single-byte text: the byte `n` is the character
U+00`n`, so every sequence of bytes is a text, and a text is a sequence of bytes
exactly when it has no character above U+00FF.

Reading also brings line ends to one form, writing leaves them as they are.
-/

namespace PocketBasic
namespace Text

/-- Whether a character is a single byte. -/
def isByte (c : Char) : Bool := c.toNat < 0x100

/-- The characters that a sequence of bytes stands for. -/
def decodeBytes (bytes : List UInt8) : List Char := bytes.map fun b => Char.ofNat b.toNat

/-- The first maximal run of characters that are not single bytes; empty if all
are. -/
def firstWideRun (text : List Char) : List Char :=
  (text.dropWhile isByte).takeWhile fun c => !isByte c

/-- The bytes of a text, or the first maximal run of characters that have none. -/
def encodeBytes (text : List Char) : Except (List Char) (List UInt8) :=
  match firstWideRun text with
  | [] => .ok (text.map fun c => c.toNat.toUInt8)
  | run => .error run

/-- There is no wide run exactly when every character is a single byte. -/
theorem firstWideRun_eq_nil_iff {text : List Char} :
    firstWideRun text = [] ↔ ∀ c ∈ text, isByte c = true := by
  induction text with
  | nil => simp [firstWideRun]
  | cons c rest ih => by_cases h : isByte c = true <;> simp_all [firstWideRun]

/-- A byte is read back as the character that it was written for. -/
theorem ofNat_toUInt8_toNat {c : Char} (h : isByte c = true) :
    Char.ofNat c.toNat.toUInt8.toNat = c := by
  have hc : c.toNat < 256 := by simpa [isByte] using h
  rw [Nat.toUInt8, UInt8.toNat_ofNat', Nat.mod_eq_of_lt hc]
  exact Char.ofNat_toNat c

/-- Bytes that were written for a text are read back as that text. -/
theorem decodeBytes_of_encodeBytes {text : List Char} {bytes : List UInt8}
    (h : encodeBytes text = .ok bytes) : decodeBytes bytes = text := by
  unfold encodeBytes at h
  split at h
  · rename_i hw
    obtain rfl := Except.ok.inj h
    rw [decodeBytes, List.map_map]
    refine (List.map_congr_left fun c hc => ?_).trans (List.map_id text)
    exact ofNat_toUInt8_toNat (firstWideRun_eq_nil_iff.1 hw c hc)
  · cases h

/-- Writes every line end, `\r\n` or a lone `\r`, as `\n`. -/
def unifyLineEnds : List Char → List Char
  | [] => []
  | '\r' :: '\n' :: rest => '\n' :: unifyLineEnds rest
  | '\r' :: rest => '\n' :: unifyLineEnds rest
  | c :: rest => c :: unifyLineEnds rest

end Text
end PocketBasic

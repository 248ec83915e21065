import PocketBasic.CommandLine.Run
import PocketBasic.Proofs.Diagnostics.Wording
import PocketBasic.Proofs.Translation.Characters

/-!
# Token dumps are lines

What a dump shows of a token is printable: the name of its kind, two numbers, and its text in
quotes, where every character that is not printable is written as others that are
(`Text.allChars_quote`).  A line end is not printable, so a dump is one line, and neither is the
character that a terminal escape starts with, so nothing is removed when a dump is printed.

Main statement: the dumps of tokens are printed as they are, one on a line
(`CommandLine.printedLines_dump`).
-/

namespace PocketBasic

namespace Text

theorem isPrintable_digitChar (n : ℕ) : isPrintable (Nat.digitChar n) = true :=
  forall_digitChar (P := fun c => isPrintable c = true) (by decide) n

theorem isPrintable_of_mem_hexDigits {width n : ℕ} {c : Char} (h : c ∈ hexDigits width n) :
    isPrintable c = true := by
  induction width generalizing n with
  | zero => cases h
  | succ width ih =>
    rw [hexDigits, List.mem_append, List.mem_singleton] at h
    rcases h with h | rfl
    · exact ih h
    · exact isPrintable_digitChar _

theorem isPrintable_of_mem_escapeCodePoint {n : ℕ} {c : Char} (h : c ∈ escapeCodePoint n) :
    isPrintable c = true := by
  have hbackslash : isPrintable '\\' = true := by decide
  unfold escapeCodePoint at h
  split_ifs at h
  all_goals
    rcases List.mem_cons.mp h with rfl | h
    · exact hbackslash
    rcases List.mem_cons.mp h with rfl | h
    · decide
    · exact isPrintable_of_mem_hexDigits h

theorem isPrintable_of_mem_escapeChar {delimiter c c' : Char} (hmark : isPrintable delimiter = true)
    (h : c' ∈ escapeChar delimiter c) : isPrintable c' = true := by
  unfold escapeChar at h
  split_ifs at h with hspecial hnewline hreturn htab hprintable
  · rcases List.mem_pair.mp h with rfl | rfl
    · decide
    · rcases hspecial with rfl | rfl
      · exact hmark
      · decide
  · rcases List.mem_pair.mp h with rfl | rfl <;> decide
  · rcases List.mem_pair.mp h with rfl | rfl <;> decide
  · rcases List.mem_pair.mp h with rfl | rfl <;> decide
  · rw [List.mem_singleton.mp h]
    exact hprintable
  · exact isPrintable_of_mem_escapeCodePoint h

/-- A quoted text has printable characters only. -/
theorem allChars_quote (text : String) : AllChars (isPrintable · = true) (quote text) := by
  have hmark : isPrintable (quoteMark text.toList) = true := by
    unfold quoteMark
    split_ifs
    all_goals decide
  intro c hc
  rw [quote, String.toList_ofList, quoted, List.mem_cons, List.mem_append, List.mem_flatMap,
    List.mem_singleton] at hc
  rcases hc with rfl | ⟨c', -, hc⟩ | rfl
  · exact hmark
  · exact isPrintable_of_mem_escapeChar hmark hc
  · exact hmark

section Numbers

variable {P : Char → Prop} (hdigit : ∀ k < 17, P (Nat.digitChar k))

include hdigit

theorem allChars_repr (n : ℕ) : AllChars P n.repr := by
  intro c hc
  rw [Nat.repr_eq_ofList_toDigits, String.toList_ofList] at hc
  obtain ⟨k, rfl⟩ := exists_of_mem_toDigits hc
  exact forall_digitChar hdigit k

/-- A number is written in digits, with a sign before them if it is negative. -/
theorem allChars_toString_int (hsign : P '-') (n : Int) : AllChars P (toString n) := by
  cases n with
  | ofNat n => exact allChars_repr hdigit n
  | negSucc n =>
    show AllChars P ("-" ++ (n + 1).repr)
    refine allChars_append.mpr ⟨?_, allChars_repr hdigit _⟩
    intro c hc
    rw [List.mem_singleton.mp hc]
    exact hsign

end Numbers

end Text

namespace Kind

theorem mem_all (k : Kind) : k ∈ all := by
  cases k with
  | keyword w =>
    cases w
    all_goals decide
  | operator o =>
    cases o
    all_goals decide
  | _ => decide

theorem allChars_name (k : Kind) : AllChars (Text.isPrintable · = true) k.name := by
  have hall : ∀ k ∈ all, AllChars (Text.isPrintable · = true) k.name := by decide
  exact hall k k.mem_all

end Kind

/-- A dump has printable characters only. -/
theorem Token.allChars_dump (t : Token) : AllChars (Text.isPrintable · = true) t.dump := by
  have hopening : AllChars (Text.isPrintable · = true) ("Token(" ++ t.kind.name ++ ", ") := by
    simp only [allChars_append]
    exact ⟨⟨by decide, t.kind.allChars_name⟩, by decide⟩
  have hnumber (n : Int) : AllChars (Text.isPrintable · = true) (toString n) :=
    Text.allChars_toString_int (by decide) (by decide) n
  have hplace : AllChars (Text.isPrintable · = true)
      (toString t.location.line ++ ":" ++ toString t.location.column) := by
    simp only [allChars_append]
    exact ⟨⟨hnumber _, by decide⟩, hnumber _⟩
  have hclosing : AllChars (Text.isPrintable · = true) ")" := by decide
  have hcomma : AllChars (Text.isPrintable · = true) ", " := by decide
  unfold dump
  split
  · exact allChars_append.mpr ⟨allChars_append.mpr ⟨hopening, hplace⟩, hclosing⟩
  · exact allChars_append.mpr ⟨allChars_append.mpr ⟨hopening, hplace⟩, hclosing⟩
  · have hquoted := allChars_append.mpr
      ⟨allChars_append.mpr ⟨hopening, Text.allChars_quote t.text⟩, hcomma⟩
    exact allChars_append.mpr ⟨allChars_append.mpr ⟨hquoted, hplace⟩, hclosing⟩

namespace CommandLine

/-- Printable text is printed as it is. -/
theorem printed_eq {text : String} (h : AllChars (Text.isPrintable · = true) text) :
    printed text = text ++ "\n" := by
  have hescape : '\x1b' ∉ text.toList := fun hmem => by cases h _ hmem
  rw [printed, Text.removeEscapes_eq_self hescape, String.ofList_toList]

/-- Dumps are printed as lines, and each of them is one. -/
theorem printedLines_dump (ts : List Token) :
    printedLines (ts.map Token.dump) = unlines (ts.map Token.dump) ∧
      ∀ line ∈ ts.map Token.dump, OneLine line := by
  have hdump : ∀ line ∈ ts.map Token.dump, AllChars (Text.isPrintable · = true) line := by
    intro line hline
    obtain ⟨t, -, rfl⟩ := List.mem_map.mp hline
    exact t.allChars_dump
  constructor
  · rw [printedLines, unlines, List.map_congr_left fun line hline => printed_eq (hdump line hline)]
  · intro line hline hmem
    cases hdump line hline _ hmem

end CommandLine
end PocketBasic

import Mathlib
import PocketBasic.Proofs.Lexing.Writing

/-!
# What stands at the place of an answer

A place is found in two ways.  A source that reads on tells the line from what stands around its
cursor, and a translation that refuses a token looks the line up by its number, in the text as it
is split at line ends.  Both come to the same: the line with the number that a place has is the
line around the place (`Source.line?_placeBehind`).

What stands there is told by the segment that the answer is about.  Every answer of a source is
about a segment of its text, or is the end of the input (`Source.exists_cut_of_mem_events`).  So a
token stands where its lexeme does, and a lexical fault stands at the characters that it is about.
-/

namespace PocketBasic

/-! ## Lines by their numbers -/

/-- The part of a text that goes to the end of its first line. -/
def lineAhead (behind : List Char) : List Char := behind.takeWhile (· ≠ '\n')

theorem not_mem_lineAhead (behind : List Char) : '\n' ∉ lineAhead behind := by
  intro h
  simpa using List.mem_takeWhile_imp h

theorem not_mem_lastLine (before : List Char) : '\n' ∉ lastLine before := by
  intro h
  simpa using List.mem_rtakeWhile_imp h

/-- Text on one line is at the front of that line. -/
theorem lineAhead_append {run : List Char} (h : '\n' ∉ run) (behind : List Char) :
    lineAhead (run ++ behind) = run ++ lineAhead behind := by
  refine List.takeWhile_append_of_pos ?_
  intro c hc
  refine decide_eq_true ?_
  rintro rfl
  exact h hc

/-- What stands before the last line ends with a line end. -/
theorem exists_before_lastLine (before : List Char) :
    before = lastLine before ∨ ∃ lines, before = lines ++ '\n' :: lastLine before := by
  induction before using List.reverseRecOn with
  | nil => exact .inl rfl
  | append_singleton before c ih =>
    by_cases hc : c = '\n'
    · subst hc
      rw [lastLine_concat_newline]
      exact .inr ⟨before, rfl⟩
    · rw [lastLine_concat before hc]
      rcases ih with h | ⟨lines, h⟩
      · exact .inl (by rw [← h])
      · refine .inr ⟨lines, ?_⟩
        rw [← List.cons_append, ← List.append_assoc, ← h]

/-- There is one line more than there are line ends. -/
theorem length_splitOn (text : List Char) : (text.splitOn '\n').length = text.count '\n' + 1 := by
  induction hn : text.length using Nat.strongRecOn generalizing text with
  | ind n ih =>
    by_cases h : '\n' ∈ text
    · obtain ⟨first, rest, rfl⟩ := List.append_of_mem h
      rw [List.length_append, List.length_cons] at hn
      rw [List.splitOn_append_cons_self, List.length_append, ih first.length (by omega) first rfl,
        ih rest.length (by omega) rest rfl, List.count_append, List.count_cons_self]
      omega
    · rw [List.splitOn_eq_singleton h, List.count_eq_zero_of_not_mem h]
      rfl

theorem head?_splitOn (text : List Char) : (text.splitOn '\n').head? = some (lineAhead text) := by
  obtain ⟨run, rest, rfl, hrun, hstop⟩ := Lexeme.exists_run (· ≠ '\n') text
  have hmem : '\n' ∉ run := fun h => by simpa using hrun _ h
  rw [lineAhead_append hmem]
  cases rest with
  | nil =>
    rw [List.append_nil, List.splitOn_eq_singleton hmem]
    exact congrArg some (List.append_nil run).symm
  | cons c rest =>
    obtain rfl : c = '\n' := by simpa using Lexeme.noneAhead_cons.mp hstop
    rw [List.splitOn_append_cons_self, List.splitOn_eq_singleton hmem]
    exact congrArg some (List.append_nil run).symm

/-- The line around a place has the number of the line ends before it. -/
theorem getElem?_splitOn (before behind : List Char) :
    ((before ++ behind).splitOn '\n')[before.count '\n']? =
      some (lastLine before ++ lineAhead behind) := by
  rw [← lineAhead_append (not_mem_lastLine before)]
  rcases exists_before_lastLine before with h | ⟨lines, h⟩
  · have hcount : before.count '\n' = 0 := by
      rw [h]
      exact List.count_eq_zero_of_not_mem (not_mem_lastLine before)
    rw [hcount, ← h, ← List.head?_eq_getElem?]
    exact head?_splitOn _
  · have hcount : before.count '\n' = (lines.splitOn '\n').length := by
      rw [length_splitOn, h, List.count_append, List.count_cons_self,
        List.count_eq_zero_of_not_mem (not_mem_lastLine before)]
    have htext : before ++ behind = lines ++ '\n' :: (lastLine before ++ behind) := by
      rw [← List.cons_append, ← List.append_assoc, ← h]
    rw [hcount, htext, List.splitOn_append_cons_self, List.getElem?_append_right (Nat.le_refl _),
      Nat.sub_self, ← List.head?_eq_getElem?]
    exact head?_splitOn _

/-- The line that is looked up by the number of a place is the line around it. -/
theorem Source.line?_placeBehind {s : Source} {before behind : List Char}
    (h : s.text.toList = before ++ behind) :
    s.line? (placeBehind s.filename before).line = some (lineAround before behind) := by
  have hpos : (0 : Int) < (before.count '\n' : Int) + 1 := by omega
  have hnumber : ((before.count '\n' : Int) + 1 - 1).toNat = before.count '\n' := by omega
  rw [line?, placeBehind, if_pos hpos, hnumber, h, getElem?_splitOn]
  rfl

/-- A line does not depend on where on it the place is. -/
theorem lineAround_append_run {run : List Char} (h : '\n' ∉ run) (before behind : List Char) :
    lineAround (before ++ run) behind = lineAround before (run ++ behind) := by
  show String.ofList (lastLine (before ++ run) ++ lineAhead behind) =
    String.ofList (lastLine before ++ lineAhead (run ++ behind))
  rw [lastLine_append before h, lineAhead_append h, List.append_assoc]

/-! ## Answers and the text around them -/

/-- Every answer from a place on is about a segment of the text behind it, or is the end of the
input. -/
theorem CutInto.exists_cut_of_mem {text : List Char} {gs : List Segment} (h : CutInto text gs)
    {filename : String} {before : List Char} {answer : Except Diagnostic Token}
    (hanswer : answer ∈ answersBehind filename before text gs) :
    (∃ (g : Segment) (front behind : List Char), before ++ text = front ++ (g.chars ++ behind) ∧
      Lexeme.ReadAs g.lexeme behind g.outcome ∧ answer = g.answer filename front behind) ∨
    answer = .ok ⟨.endOfInput, "", placeBehind filename (before ++ text)⟩ := by
  induction h generalizing before with
  | nil => exact .inr (List.mem_singleton.mp hanswer)
  | @cons g behind gs hread hbehind ih =>
    rw [answersBehind_cons _ _ _ hbehind, List.mem_cons] at hanswer
    rcases hanswer with rfl | hlater
    · exact .inl ⟨g, before, behind, rfl, hread, rfl⟩
    · have hlater := ih hlater
      rwa [List.append_assoc] at hlater

namespace Source

variable {filename text : String}

theorem exists_cut_of_mem_events {answer : Except Diagnostic Token}
    (h : answer ∈ (ofString filename text).events) :
    (∃ (g : Segment) (front behind : List Char),
      (text ++ "\n").toList = front ++ (g.chars ++ behind) ∧
      Lexeme.ReadAs g.lexeme behind g.outcome ∧ answer = g.answer filename front behind) ∨
    answer = .ok ⟨.endOfInput, "", placeBehind filename (text ++ "\n").toList⟩ := by
  obtain ⟨gs, hgs⟩ := (wholeLines_concat text.toList).exists_cutInto
  rw [events_ofString filename hgs] at h
  have htext : (text ++ "\n").toList = text.toList ++ ['\n'] := String.toList_append
  have hcut := hgs.exists_cut_of_mem h
  rwa [List.nil_append, ← htext] at hcut

/-- The tokens and the fault behind them are events. -/
theorem mem_events_of_mem_tokens {s : Source} {t : Token} (h : t ∈ s.tokenize.tokens) :
    .ok t ∈ s.events := by
  have hmem : .ok t ∈ s.tokenize.tokens.map (Except.ok (ε := Diagnostic)) :=
    List.mem_map_of_mem h
  cases hfailure : s.tokenize.failure with
  | none => rwa [events_of_clean hfailure]
  | some d =>
    obtain ⟨rest, hrest⟩ := events_of_failure hfailure
    rw [hrest]
    exact List.mem_append_left _ hmem

theorem mem_events_of_failure {s : Source} {d : Diagnostic} (h : s.tokenize.failure = some d) :
    .error d ∈ s.events := by
  obtain ⟨rest, hrest⟩ := events_of_failure h
  rw [hrest]
  exact List.mem_append_right _ List.mem_cons_self

end Source
end PocketBasic

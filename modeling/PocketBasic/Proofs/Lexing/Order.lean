import PocketBasic.Proofs.Lexing.Lines

/-!
# The order of tokens

A place is told by the text before it, and a longer text leads to another place: either there is
a line end in what was added, or the last line is longer.  Tokens take up text, so no two tokens
of a source stand at the same place.  That is why the place of a fault says which token it is
about.

Main statement: `Source.pairwise_location`.
-/

namespace PocketBasic

/-- Behind more text is another place. -/
theorem placeBehind_append_ne (filename : String) (before : List Char) {more : List Char}
    (h : more ≠ []) : placeBehind filename (before ++ more) ≠ placeBehind filename before := by
  intro heq
  by_cases hmem : '\n' ∈ more
  · have hpos := List.count_pos_iff.mpr hmem
    have hline := congrArg Location.line heq
    simp only [placeBehind, List.count_append] at hline
    omega
  · have hpos := List.length_pos_of_ne_nil h
    have hcolumn := congrArg Location.column heq
    simp only [placeBehind, lastLine_append before hmem, List.length_append] at hcolumn
    omega

/-- Two answers that are tokens stand at different places. -/
def Apart (a b : Except Diagnostic Token) : Prop :=
  ∀ t u, a = .ok t → b = .ok u → t.location ≠ u.location

/-- The token that a segment is read as stands behind the layout of the segment. -/
theorem Segment.location_of_answer {filename : String} {before behind : List Char} {g : Segment}
    {t : Token} (h : g.answer filename before behind = .ok t) :
    t.location = placeBehind filename (before ++ g.layout) := by
  unfold answer at h
  split at h
  · obtain rfl := Except.ok.inj h
    rfl
  · cases h

namespace CutInto

variable {text : List Char} {gs : List Segment}

/-- All later tokens stand behind the text before them. -/
theorem exists_location (h : CutInto text gs) (filename : String) (before : List Char) {t : Token}
    (ht : .ok t ∈ answersBehind filename before text gs) :
    ∃ more, t.location = placeBehind filename (before ++ more) := by
  induction h generalizing before with
  | nil =>
    obtain rfl := Except.ok.inj (List.mem_singleton.mp ht)
    exact ⟨_, rfl⟩
  | @cons g behind gs hread hbehind ih =>
    rw [answersBehind_cons _ _ _ hbehind, List.mem_cons] at ht
    rcases ht with ht | ht
    · exact ⟨g.layout, Segment.location_of_answer ht.symm⟩
    · obtain ⟨more, hmore⟩ := ih (before ++ g.chars) ht
      exact ⟨g.chars ++ more, by rw [hmore, List.append_assoc]⟩

/-- The answers about segments, and the end of the input, stand at different places. -/
theorem pairwise_apart (h : CutInto text gs) (filename : String) (before : List Char) :
    (answersBehind filename before text gs).Pairwise Apart := by
  induction h generalizing before with
  | nil => exact List.pairwise_singleton _ _
  | @cons g behind gs hread hbehind ih =>
    rw [answersBehind_cons _ _ _ hbehind, List.pairwise_cons]
    refine ⟨?_, ih (before ++ g.chars)⟩
    rintro _ hlater t u ht rfl
    obtain ⟨more, hmore⟩ := hbehind.exists_location filename (before ++ g.chars) hlater
    obtain ⟨c, rest, hlexeme, -⟩ := hread.exists_eq_cons
    have hne : g.lexeme ++ more ≠ [] := by
      rw [hlexeme]
      exact List.cons_ne_nil _ _
    have hplace : before ++ g.chars ++ more = before ++ g.layout ++ (g.lexeme ++ more) := by
      simp only [Segment.chars, List.append_assoc]
    rw [Segment.location_of_answer ht, hmore, hplace]
    exact (placeBehind_append_ne filename (before ++ g.layout) hne).symm

end CutInto

/-- No two tokens of a source stand at the same place. -/
theorem Source.pairwise_location (filename text : String) :
    (ofString filename text).tokenize.tokens.Pairwise fun t u => t.location ≠ u.location := by
  obtain ⟨gs, hgs⟩ := (wholeLines_concat text.toList).exists_cutInto
  have hevents : (ofString filename text).events.Pairwise Apart := by
    rw [events_ofString filename hgs]
    exact hgs.pairwise_apart filename []
  have htokens : ((ofString filename text).tokenize.tokens.map Except.ok).Pairwise Apart := by
    cases hfailure : (ofString filename text).tokenize.failure with
    | none => rwa [← events_of_clean hfailure]
    | some d =>
      obtain ⟨rest, hrest⟩ := events_of_failure hfailure
      rw [hrest] at hevents
      exact (List.pairwise_append.mp hevents).1
  refine (List.pairwise_map.mp htokens).imp ?_
  intro t u htu
  exact htu t u rfl rfl

end PocketBasic

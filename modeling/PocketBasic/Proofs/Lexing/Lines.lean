import PocketBasic.Proofs.Lexing.Coverage

/-!
# Lines are read one by one

No token and no fault crosses the end of a line, and reading goes on behind a fault before the
line ends.  So what the lines of a text are answered with does not depend on the lines around
them, their numbers apart.

`Source.events` are the answers up to the end of the input, faults among them.  For a text that
is cut into segments they are told by the segments and by the text before them
(`Source.events_of_cutInto`).  Two facts about this carry the main statement:

* the segments of whole lines stay what they are before more lines (`CutInto.append`), and so do
  their answers (`segmentAnswers_append`);
* behind more lines the answers are the same ones further down (`segmentAnswers_behind`).

Main statement: the events of two texts with a line end between them are those of the first,
without its end of the input, and then those of the second, further down
(`Source.events_joined`).
-/

namespace PocketBasic

/-! ## Answers further down -/

/-- The same column, a number of lines further down. -/
def Location.moveDown (n : Nat) (l : Location) : Location := { l with line := l.line + n }

/-- An answer whose place is a number of lines further down. -/
def movedDown (n : Nat) : Except Diagnostic Token → Except Diagnostic Token
  | .ok t => .ok { t with location := t.location.moveDown n }
  | .error d => .error { d with location := d.location.map (Location.moveDown n) }

/-- The last line of a text does not depend on the lines before it. -/
theorem lastLine_behind (lines before : List Char) :
    lastLine (lines ++ '\n' :: before) = lastLine before := by
  induction before using List.reverseRecOn with
  | nil => rw [lastLine_concat_newline, lastLine_nil]
  | append_singleton before c ih =>
    rw [← List.cons_append, ← List.append_assoc]
    by_cases hc : c = '\n'
    · rw [hc, lastLine_concat_newline, lastLine_concat_newline]
    · rw [lastLine_concat _ hc, lastLine_concat _ hc, ih]

theorem placeBehind_behind (filename : String) (lines before : List Char) :
    placeBehind filename (lines ++ '\n' :: before) =
      (placeBehind filename before).moveDown (lines.count '\n' + 1) := by
  simp only [placeBehind, Location.moveDown, lastLine_behind, List.count_append,
    List.count_cons_self]
  congr 1
  omega

theorem lineAround_behind (lines before behind : List Char) :
    lineAround (lines ++ '\n' :: before) behind = lineAround before behind := by
  rw [lineAround, lastLine_behind, lineAround]

/-- A line does not depend on what comes behind its end. -/
theorem lineAround_append (before : List Char) {behind : List Char} (h : '\n' ∈ behind)
    (more : List Char) : lineAround before (behind ++ more) = lineAround before behind := by
  obtain ⟨run, rest, rfl, hrun, hstop⟩ := Lexeme.exists_run (· ≠ '\n') behind
  cases rest with
  | nil =>
    rw [List.append_nil] at h
    exact absurd rfl (of_decide_eq_true (hrun _ h))
  | cons c rest =>
    have hahead : Lexeme.NoneAhead (· ≠ '\n') (c :: rest ++ more) :=
      Lexeme.noneAhead_cons.mpr (Lexeme.noneAhead_cons.mp hstop)
    rw [lineAround, List.append_assoc, Lexeme.takeWhile_run hrun hahead, lineAround,
      Lexeme.takeWhile_run hrun hstop]

theorem Segment.answer_behind (filename : String) (lines before : List Char) (g : Segment)
    (behind : List Char) :
    g.answer filename (lines ++ '\n' :: before) behind =
      movedDown (lines.count '\n' + 1) (g.answer filename before behind) := by
  unfold answer
  simp only [List.append_assoc, List.cons_append, lineAround_behind]
  split
  · rw [movedDown, placeBehind_behind]
  · rw [movedDown, ← apply_ite (lines ++ '\n' :: ·), placeBehind_behind]
    rfl

/-! ## The answers of segments -/

/-- The answers about segments that stand behind a text. -/
def segmentAnswers (filename : String) (before : List Char) :
    List Segment → List (Except Diagnostic Token)
  | [] => []
  | g :: gs =>
    g.answer filename before (gs.flatMap Segment.chars) ::
      segmentAnswers filename (before ++ g.chars) gs

theorem segmentAnswers_behind (filename : String) (lines before : List Char) (gs : List Segment) :
    segmentAnswers filename (lines ++ '\n' :: before) gs =
      (segmentAnswers filename before gs).map (movedDown (lines.count '\n' + 1)) := by
  induction gs generalizing before with
  | nil => rfl
  | cons g gs ih =>
    rw [segmentAnswers, segmentAnswers, List.map_cons, Segment.answer_behind, List.append_assoc,
      List.cons_append, ih]

/-- Whole lines that begin with a segment have a line end at the lexeme or behind it. -/
theorem Segment.newline_mem {g : Segment} {behind : List Char}
    (h : WholeLines (g.chars ++ behind)) (hread : Lexeme.ReadAs g.lexeme behind g.outcome) :
    '\n' ∈ g.lexeme ++ behind := by
  obtain ⟨c, rest, hlexeme, -⟩ := hread.exists_eq_cons
  have hne : g.lexeme ++ behind ≠ [] := by rw [hlexeme]; exact List.cons_ne_nil _ _
  have hlast : WholeLines (g.lexeme ++ behind) := by
    rw [chars, List.append_assoc] at h
    exact h.of_append
  rw [← hlast _ (List.getLast?_eq_getLast_of_ne_nil hne)]
  exact List.getLast_mem hne

/-- The segments of whole lines stay what they are before more text. -/
theorem CutInto.append {text more : List Char} {gs later : List Segment} (h : CutInto text gs)
    (hlines : WholeLines text) (hmore : CutInto more later) :
    CutInto (text ++ more) (gs ++ later) := by
  induction h with
  | nil => exact hmore
  | @cons g behind gs hread hbehind ih =>
    -- only a line end can be the last lexeme of whole lines, and it looks at nothing behind it
    have hstop : g.lexeme = ['\n'] ∨ behind ≠ [] := by
      rcases hread.eq_newline_or with ⟨hnewline, -⟩ | hnone
      · exact .inl hnewline
      · refine .inr ?_
        rintro rfl
        have hmem := Segment.newline_mem hlines hread
        rw [List.append_nil] at hmem
        exact hnone hmem
    rw [List.append_assoc, List.cons_append]
    exact .cons (hread.append hstop more) (ih hlines.of_append)

theorem segmentAnswers_append (filename : String) (before : List Char) {text : List Char}
    {gs : List Segment} (h : CutInto text gs) (hlines : WholeLines text) (later : List Segment) :
    segmentAnswers filename before (gs ++ later) =
      segmentAnswers filename before gs ++ segmentAnswers filename (before ++ text) later := by
  induction h generalizing before with
  | nil => rw [List.append_nil]; rfl
  | @cons g behind gs hread hbehind ih =>
    have hsame : g.answer filename before (behind ++ later.flatMap Segment.chars) =
        g.answer filename before behind := by
      unfold Segment.answer
      rw [← List.append_assoc, lineAround_append _ (Segment.newline_mem hlines hread)]
    rw [List.cons_append, segmentAnswers, List.flatMap_append, hbehind.flatMap_chars, hsame,
      ih _ hlines.of_append, segmentAnswers, hbehind.flatMap_chars, List.cons_append,
      List.append_assoc]

/-- The answers from the place behind a text on: those about the segments that are left, and the
end of the input. -/
def answersBehind (filename : String) (before text : List Char) (gs : List Segment) :
    List (Except Diagnostic Token) :=
  segmentAnswers filename before gs ++
    [.ok ⟨.endOfInput, "", placeBehind filename (before ++ text)⟩]

theorem answersBehind_cons (filename : String) (before : List Char) {behind : List Char}
    (g : Segment) {gs : List Segment} (h : CutInto behind gs) :
    answersBehind filename before (g.chars ++ behind) (g :: gs) =
      g.answer filename before behind :: answersBehind filename (before ++ g.chars) behind gs := by
  rw [answersBehind, segmentAnswers, h.flatMap_chars, List.cons_append, answersBehind,
    List.append_assoc before]

/-! ## Events -/

namespace Source

/-- The answers up to and including the first that is the end of the input. -/
def events (s : Source) : List (Except Diagnostic Token) :=
  match _h : s.next with
  | (.error d, s') => .error d :: s'.events
  | (.ok t, s') => if _hk : t.kind = .endOfInput then [.ok t] else .ok t :: s'.events
termination_by s.left.length
decreasing_by
  · have := s.length_left_next_lt (by rw [_h]; rintro t ⟨⟩)
    rwa [_h] at this
  · have := s.length_left_next_lt (by rw [_h]; rintro t ⟨⟩; exact _hk)
    rwa [_h] at this

/-- An answer that is not the end of the input is an event before those behind it. -/
theorem events_cons {s : Source} (h : ∀ t, s.next.1 = .ok t → t.kind ≠ .endOfInput) :
    s.events = s.next.1 :: s.next.2.events := by
  rw [events]
  split
  · rename_i d s' hnext
    rw [hnext]
  · rename_i t s' hnext
    rw [dif_neg (h t (by rw [hnext])), hnext]

/-- The end of the input is the last event. -/
theorem events_of_endOfInput {s : Source} {t : Token} (h : s.next.1 = .ok t)
    (hk : t.kind = .endOfInput) : s.events = [.ok t] := by
  rw [events]
  split
  · rename_i d s' hnext
    rw [hnext] at h
    cases h
  · rename_i t' s' hnext
    rw [hnext] at h
    obtain rfl := Except.ok.inj h
    rw [dif_pos hk]

/-- Where no fault ends the reading, the tokens are all events. -/
theorem events_of_clean {s : Source} (h : s.tokenize.failure = none) :
    s.events = s.tokenize.tokens.map .ok := by
  fun_induction tokenize s with
  | case1 s failure s' hnext => cases h
  | case2 s token s' hnext hk =>
    have hfirst : s.next.1 = .ok token := by rw [hnext]
    rw [events_of_endOfInput hfirst hk]
    rfl
  | case3 s token s' hnext hk later ih =>
    rw [events_cons (by rw [hnext]; rintro t ⟨⟩; exact hk), hnext, ih h]
    rfl

/-- A fault that ends the reading is the event behind the tokens. -/
theorem events_of_failure {s : Source} {d : Diagnostic} (h : s.tokenize.failure = some d) :
    ∃ rest, s.events = s.tokenize.tokens.map .ok ++ .error d :: rest := by
  fun_induction tokenize s with
  | case1 s failure s' hnext =>
    obtain rfl := Option.some.inj h
    rw [events_cons (by rw [hnext]; rintro t ⟨⟩), hnext]
    exact ⟨s'.events, rfl⟩
  | case2 s token s' hnext hk => cases h
  | case3 s token s' hnext hk later ih =>
    obtain ⟨rest, hrest⟩ := ih h
    refine ⟨rest, ?_⟩
    rw [events_cons (by rw [hnext]; rintro t ⟨⟩; exact hk), hnext, hrest]
    rfl

/-- The events are the answers about what is left. -/
theorem events_of_cutInto {s : Source} {before text : List Char} {gs : List Segment}
    (hs : s.cursor = .behind before text) (h : CutInto text gs) :
    s.events = answersBehind s.filename before text gs := by
  induction h generalizing s before with
  | nil =>
    have hnext := next_of_nil hs
    rw [events_of_endOfInput (congrArg Prod.fst hnext) rfl, answersBehind, List.append_nil]
    rfl
  | @cons g behind gs hread hbehind ih =>
    have hpasses := passes_of_readAs hs hread
    have hnext := next_of_segment hs hread
    rw [events_cons hpasses.kind_ne, hnext, ih rfl, answersBehind_cons _ _ _ hbehind]

theorem events_ofString (filename : String) {text : String} {gs : List Segment}
    (h : CutInto (text.toList ++ ['\n']) gs) :
    (ofString filename text).events = answersBehind filename [] (text.toList ++ ['\n']) gs :=
  events_of_cutInto (cursor_ofString filename text) h

/-- The segments of a text are answered as before when more text comes behind its line end, and
what comes behind is answered as by itself, further down. -/
theorem events_behind (filename : String) {first : String} {gs : List Segment}
    (hgs : CutInto (first.toList ++ ['\n']) gs) (second : String) :
    (ofString filename (first ++ "\n" ++ second)).events = segmentAnswers filename [] gs ++
      (ofString filename second).events.map (movedDown (1 + first.toList.count '\n')) := by
  obtain ⟨later, hlater⟩ := (wholeLines_concat second.toList).exists_cutInto
  have htext : (first ++ "\n" ++ second).toList ++ ['\n'] =
      first.toList ++ ['\n'] ++ (second.toList ++ ['\n']) := by
    rw [String.toList_append, String.toList_append, List.append_assoc]
    rfl
  have hjoined := hgs.append (wholeLines_concat _) hlater
  have hlast : placeBehind filename (first.toList ++ ['\n'] ++ (second.toList ++ ['\n'])) =
      (placeBehind filename (second.toList ++ ['\n'])).moveDown (first.toList.count '\n' + 1) := by
    rw [List.append_assoc]
    exact placeBehind_behind filename first.toList _
  rw [events_ofString filename (htext ▸ hjoined), events_ofString filename hlater, answersBehind,
    answersBehind, List.nil_append, List.nil_append, htext, hlast,
    segmentAnswers_append _ _ hgs (wholeLines_concat _), List.nil_append, segmentAnswers_behind,
    List.map_append, List.append_assoc, Nat.add_comm 1]
  rfl

/-- The events of two texts with a line end between them are those of the first, without its
end of the input, and then those of the second, as many lines further down as the first has. -/
theorem events_joined (filename first second : String) :
    ∃ (front : List (Except Diagnostic Token)) (last : Token),
      (ofString filename first).events = front ++ [.ok last] ∧ last.kind = .endOfInput ∧
      (ofString filename (first ++ "\n" ++ second)).events =
        front ++ (ofString filename second).events.map (movedDown (1 + first.toList.count '\n')) := by
  obtain ⟨gs, hgs⟩ := (wholeLines_concat first.toList).exists_cutInto
  exact ⟨_, _, events_ofString filename hgs, rfl, events_behind filename hgs second⟩

/-- A number without decimals at the end of a line does not take those of the next line. -/
example : (ofString "t" "1.\n2").events =
    [.error ⟨.lexical (.malformedNumber "\n"), some ⟨"t", 1, 3⟩, some "1."⟩,
      .ok ⟨.newline, "\n", ⟨"t", 1, 3⟩⟩, .ok ⟨.number, "2", ⟨"t", 2, 1⟩⟩,
      .ok ⟨.newline, "\n", ⟨"t", 2, 2⟩⟩, .ok ⟨.endOfInput, "", ⟨"t", 3, 1⟩⟩] := by
  cbv

end Source
end PocketBasic

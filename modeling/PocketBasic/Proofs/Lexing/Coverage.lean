import PocketBasic.Proofs.Lexing.Answers
import PocketBasic.Proofs.Lexing.Segments

/-!
# The calls cover the text

Nothing of a text is lost and nothing is read twice, whether the calls answer with tokens or
with faults.  A source that stands before whole lines goes through the segments that they can
be cut into, one with each call (`Source.after_of_cutInto`), so its calls cover them.

Main statement: the text of a source with the line end behind it is cut into segments, and
each call passes the next of them, until none is left and every call answers with the end of
the input (`Source.exists_segments_passed`).  What `Source.Passes` says of a call holds behind
faults as well, since it says nothing about how the source came to where it stands.
-/

namespace PocketBasic

/-- No lexeme is read as the end of the input. -/
theorem Lexeme.ReadAs.kind_ne_endOfInput {lexeme behind : List Char} {kind : Kind} {text : String}
    (h : ReadAs lexeme behind (.ok (kind, text))) : kind ≠ .endOfInput := by
  obtain ⟨c, rest, -, hread⟩ := read_of_readAs h
  have houtcome : (read c rest).outcome = .ok (kind, text) := by rw [hread]
  exact Lexeme.kind_ne_endOfInput houtcome

/-- A segment is answered with a fault or with a token that is not the end of the input. -/
theorem Segment.kind_answer_ne_endOfInput {g : Segment} {filename : String}
    {before behind : List Char} (h : Lexeme.ReadAs g.lexeme behind g.outcome) {t : Token}
    (ht : g.answer filename before behind = .ok t) : t.kind ≠ .endOfInput := by
  unfold answer at ht
  split at ht
  · rename_i kind text houtcome
    obtain rfl := Except.ok.inj ht
    rw [houtcome] at h
    exact h.kind_ne_endOfInput
  · cases ht

namespace Source

/-- What a call does that passes a segment. -/
structure Passes (s : Source) (before : List Char) (g : Segment) : Prop where
  /-- The call moves over the segment and nothing else. -/
  left_eq : s.left = g.chars ++ s.next.2.left
  /-- It moves forward. -/
  left_lt : s.next.2.left.length < s.left.length
  /-- The lexeme is read as the rules for lexemes say. -/
  readAs : Lexeme.ReadAs g.lexeme s.next.2.left g.outcome
  /-- The answer is the token or the fault that the lexeme is read as, at its place. -/
  answer_eq : s.next.1 = g.answer s.filename before s.next.2.left
  kind_ne : ∀ t, s.next.1 = .ok t → t.kind ≠ .endOfInput
  /-- Behind the call the cursor knows the line and the column where it stands. -/
  cursor_eq : s.next.2.cursor = .behind (before ++ g.chars) s.next.2.left
  /-- The call counts the token that it answers with. -/
  produced_eq : s.next.2.produced = s.produced + g.tokenCount

/-- A call that stands before a segment passes it. -/
theorem passes_of_readAs {s : Source} {before behind : List Char} {g : Segment}
    (hs : s.cursor = .behind before (g.chars ++ behind))
    (h : Lexeme.ReadAs g.lexeme behind g.outcome) : s.Passes before g := by
  have hnext := next_of_segment hs h
  have hleft : s.left = g.chars ++ behind := by rw [left, hs, Cursor.rest_behind]
  have hbehind : s.next.2.left = behind := by rw [hnext, left, Cursor.rest_behind]
  exact {
    left_eq := by rw [hleft, hbehind]
    left_lt := by
      have hpos := Segment.length_chars_pos h
      rw [hleft, hbehind, List.length_append]
      omega
    readAs := hbehind ▸ h
    answer_eq := by rw [hbehind, hnext]
    kind_ne := fun t ht => Segment.kind_answer_ne_endOfInput h (by rw [hnext] at ht; exact ht)
    cursor_eq := by rw [hbehind, hnext]
    produced_eq := by rw [hnext] }

/-- The calls of a source go through the segments that what is left can be cut into. -/
theorem after_of_cutInto {s : Source} {before text : List Char} {gs : List Segment}
    (hs : s.cursor = .behind before text) (h : CutInto text gs) {n : Nat} (hn : n ≤ gs.length) :
    s.after n = { s with
      cursor := .behind (before ++ (gs.take n).flatMap Segment.chars)
        ((gs.drop n).flatMap Segment.chars)
      produced := s.produced + (gs.take n).countP (·.outcome.isOk) } := by
  induction h generalizing s before n with
  | nil =>
    obtain rfl : n = 0 := Nat.le_zero.mp hn
    rw [after, List.take_nil, List.drop_nil, List.flatMap_nil, List.append_nil, ← hs]
    rfl
  | @cons g behind gs h hbehind ih =>
    cases n with
    | zero =>
      rw [after, List.take_zero, List.drop_zero, List.flatMap_nil, List.append_nil,
        List.flatMap_cons, hbehind.flatMap_chars, ← hs]
      rfl
    | succ n =>
      rw [← after_next, next_of_segment hs h, ih rfl (Nat.le_of_succ_le_succ hn)]
      simp only [List.take_succ_cons, List.drop_succ_cons, List.flatMap_cons, List.countP_cons,
        List.append_assoc, Nat.add_assoc, Segment.tokenCount, Nat.add_comm (List.countP _ _)]

end Source

/-- A source begins before its text and the line end that was added. -/
theorem Source.cursor_ofString (filename text : String) :
    (ofString filename text).cursor = .behind [] (text.toList ++ ['\n']) := by
  rw [ofString, String.toList_append]
  rfl

/-- The calls of a source pass the segments of its text one by one, faults or not, and when
none is left they answer with the end of the input, behind the line end that was added. -/
theorem Source.exists_segments_passed (filename text : String) :
    ∃ gs : List Segment,
      gs.flatMap Segment.chars = text.toList ++ ['\n'] ∧
      (∀ (n : Nat) (hn : n < gs.length),
        ((ofString filename text).after n).Passes ((gs.take n).flatMap Segment.chars) gs[n]) ∧
      ∀ n, gs.length ≤ n →
        ((ofString filename text).after n).left = [] ∧
        (ofString filename text).answer n =
          .ok ⟨.endOfInput, "", placeBehind filename (text.toList ++ ['\n'])⟩ := by
  obtain ⟨gs, hgs⟩ := (wholeLines_concat text.toList).exists_cutInto
  have hs := cursor_ofString filename text
  refine ⟨gs, hgs.flatMap_chars, fun n hn => ?_, fun n hn => ?_⟩
  · refine passes_of_readAs ?_ (hgs.readAs hn)
    rw [after_of_cutInto hs hgs hn.le, List.nil_append, List.drop_eq_getElem_cons hn,
      List.flatMap_cons]
  · obtain ⟨k, rfl⟩ := Nat.exists_eq_add_of_le hn
    -- behind the last segment a call leaves the source as it is
    have hend : ((ofString filename text).after gs.length).cursor =
        .behind (text.toList ++ ['\n']) [] := by
      rw [after_of_cutInto hs hgs le_rfl, List.take_length, List.drop_length, List.nil_append,
        hgs.flatMap_chars, List.flatMap_nil]
    have hnext := next_of_nil hend
    have hanswer := answer_of_endOfInput (congrArg Prod.fst hnext) rfl
    rw [← after_after, ← answer_after, (hanswer k).1, after_filename]
    refine ⟨?_, rfl⟩
    cases k with
    | zero => rw [after, left, hend, Cursor.rest_behind]
    | succ k => rw [(hanswer k).2, hnext, left, hend, Cursor.rest_behind]

end PocketBasic

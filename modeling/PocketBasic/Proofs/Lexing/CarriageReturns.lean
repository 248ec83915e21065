import PocketBasic.Proofs.Lexing.Writing

/-!
# Carriage returns before line ends

A line may end with a line end alone, or with a carriage return before it.  The two are not
read in the same way everywhere: behind a token a carriage return is a blank, behind a `#` it
is part of the comment, in a string it is a character that may not stand there, and behind a `!`
or a point it is a character that is not the one that was looked for.

What all these have in common is that a lexeme ends before a carriage return where it ends before
a line end, and that it is a token in the one text if it is one in the other.  So two texts that
differ in carriage returns before line ends are cut into the same lexemes
(`Segment.exists_withReturns` for one segment, `CutInto.exists_withReturns` for all of them), and
a carriage return goes to the layout of the line end behind it.

Main statement: two such texts are answered with the same tokens, and with faults in the same
places among them, though not with the same faults (`Source.words?_events_of_withReturns`).
-/

namespace PocketBasic

/-- The second text is the first one with carriage returns before some of its line ends, all
of them or none. -/
inductive WithReturns : List Char → List Char → Prop where
  | nil : WithReturns [] []
  | same (c : Char) {plain returned : List Char} (h : WithReturns plain returned) :
    WithReturns (c :: plain) (c :: returned)
  | inserted {plain returned : List Char} (h : WithReturns plain returned) :
    WithReturns ('\n' :: plain) ('\r' :: '\n' :: returned)

namespace WithReturns

variable {plain returned behind behind' : List Char}

theorem refl (text : List Char) : WithReturns text text := by
  induction text with
  | nil => exact .nil
  | cons c text ih => exact .same c ih

theorem append (h : WithReturns plain returned) (hbehind : WithReturns behind behind') :
    WithReturns (plain ++ behind) (returned ++ behind') := by
  induction h with
  | nil => exact hbehind
  | same c _ ih => exact .same c ih
  | inserted _ ih => exact .inserted ih

/-- Where the first text is split, the second one can be split as well. -/
theorem exists_append {text : List Char} (h : WithReturns (plain ++ behind) text) :
    ∃ returned behind', text = returned ++ behind' ∧ WithReturns plain returned ∧
      WithReturns behind behind' := by
  induction plain generalizing text with
  | nil => exact ⟨[], text, rfl, .nil, h⟩
  | cons c plain ih =>
    cases h with
    | same c h =>
      obtain ⟨returned, behind', rfl, hplain, hbehind⟩ := ih h
      exact ⟨c :: returned, behind', rfl, .same c hplain, hbehind⟩
    | inserted h =>
      obtain ⟨returned, behind', rfl, hplain, hbehind⟩ := ih h
      exact ⟨'\r' :: '\n' :: returned, behind', rfl, .inserted hplain, hbehind⟩

/-- A text on one line has no line end to put a carriage return before. -/
theorem eq_of_not_mem (h : WithReturns plain returned) (hnone : '\n' ∉ plain) : returned = plain := by
  induction h with
  | nil => rfl
  | same c _ ih => rw [ih fun hmem => hnone (List.mem_cons_of_mem c hmem)]
  | inserted => exact absurd List.mem_cons_self hnone

/-- What is not ahead in the first text is not ahead in the second one, if it is not a carriage
return. -/
theorem noneAhead (h : WithReturns plain returned) {p : Char → Bool} (hp : p '\r' = false)
    (hnone : Lexeme.NoneAhead p plain) : Lexeme.NoneAhead p returned := by
  cases h with
  | nil => exact hnone
  | same c _ => exact Lexeme.noneAhead_cons.mpr (Lexeme.noneAhead_cons.mp hnone)
  | inserted => exact Lexeme.noneAhead_cons.mpr hp

end WithReturns

/-! ## Lexemes -/

/-- Before a carriage return a lexeme is read as before the line end, but that a fault may be
another one. -/
theorem Lexeme.ReadAs.exists_withReturns {lexeme behind behind' : List Char}
    {outcome : Except LexicalFault (Kind × String)} (h : ReadAs lexeme behind outcome)
    (hbehind : WithReturns behind behind') :
    ∃ outcome', ReadAs lexeme behind' outcome' ∧ outcome'.toOption = outcome.toOption := by
  cases h with
  | newline => exact ⟨_, .newline _, rfl⟩
  | identifier h hkeyword hnone => exact ⟨_, .identifier h hkeyword (hbehind.noneAhead rfl hnone), rfl⟩
  | keyword k hnone => exact ⟨_, .keyword k (hbehind.noneAhead rfl hnone), rfl⟩
  | integer h hnone hpoint =>
    exact ⟨_, .integer h (hbehind.noneAhead rfl hnone) (hbehind.noneAhead rfl hpoint), rfl⟩
  | fraction h h' hnone => exact ⟨_, .fraction h h' (hbehind.noneAhead rfl hnone), rfl⟩
  | string h => exact ⟨_, .string h, rfl⟩
  | operator o hnone => exact ⟨_, .operator o fun ho => hbehind.noneAhead rfl (hnone ho), rfl⟩
  | invalidCharacter h h' => exact ⟨_, .invalidCharacter h h', rfl⟩
  | malformedOperator h => exact ⟨_, .malformedOperator (hbehind.noneAhead rfl h), rfl⟩
  | malformedNumber h h' => exact ⟨_, .malformedNumber h (hbehind.noneAhead rfl h'), rfl⟩
  | unterminatedString h h' =>
    cases hbehind with
    | nil => exact ⟨_, .unterminatedString h h', rfl⟩
    | same c _ =>
      exact ⟨_, .unterminatedString h (noneAhead_cons.mpr (noneAhead_cons.mp h')), rfl⟩
    -- the carriage return is reached before the line end, and may not stand in a string
    | inserted => exact ⟨_, .illegalInString h (by decide) (by decide) (by decide), rfl⟩
  | illegalInString h hc hquote hend =>
    cases hbehind with
    | same c _ => exact ⟨_, .illegalInString h hc hquote hend, rfl⟩
    | inserted => exact absurd rfl hend

/-! ## Segments -/

namespace Segment

variable {g : Segment} {behind text : List Char}

/-- There is no line end in what stands before a lexeme. -/
theorem newline_not_mem_layout (g : Segment) : '\n' ∉ g.layout := by
  intro hmem
  rcases List.mem_append.mp hmem with hblank | hcomment
  · rcases g.blanks_blank _ hblank with h | h | h
    all_goals cases h
  · rcases g.comment_shape with hnil | ⟨⟨body, hbody, hnone⟩, -⟩
    · rw [hnil] at hcomment
      cases hcomment
    · rw [hbody] at hcomment
      rcases List.mem_cons.mp hcomment with h | h
      · cases h
      · exact hnone h

/-- A line end with a carriage return in its layout, which is a blank or the end of the
comment. -/
theorem exists_returnInLayout (g : Segment) :
    ∃ g' : Segment, g'.chars = g.layout ++ ['\r', '\n'] ∧ g'.lexeme = ['\n'] ∧
      g'.outcome = g.outcome := by
  rcases g.comment_shape with hnil | ⟨⟨body, hcomment, hbody⟩, -⟩
  · refine ⟨⟨g.blanks ++ ['\r'], [], ['\n'], g.outcome, fun c hc => ?_, .inl rfl⟩, ?_, rfl, rfl⟩
    · rcases List.mem_append.mp hc with hc | hc
      · exact g.blanks_blank c hc
      · exact .inr (.inr (List.mem_singleton.mp hc))
    · simp [chars, layout, hnil]
  · refine ⟨⟨g.blanks, '#' :: (body ++ ['\r']), ['\n'], g.outcome, g.blanks_blank,
      .inr ⟨⟨_, rfl, ?_⟩, rfl⟩⟩, ?_, rfl, rfl⟩
    · simpa using hbody
    · simp [chars, layout, hcomment]

/-- With carriage returns before line ends, a text that begins with a segment begins with one
that has the same lexeme. -/
theorem exists_withReturns (hread : Lexeme.ReadAs g.lexeme behind g.outcome)
    (h : WithReturns (g.chars ++ behind) text) :
    ∃ (g' : Segment) (behind' : List Char), text = g'.chars ++ behind' ∧
      WithReturns behind behind' ∧ Lexeme.ReadAs g'.lexeme behind' g'.outcome ∧
      g'.outcome.toOption = g.outcome.toOption := by
  obtain ⟨front, behind', rfl, hfront, hbehind⟩ := h.exists_append
  obtain ⟨layout, lexeme, rfl, hlayout, hlexeme⟩ := hfront.exists_append
  obtain rfl := hlayout.eq_of_not_mem g.newline_not_mem_layout
  obtain ⟨outcome, hread', houtcome⟩ := hread.exists_withReturns hbehind
  rcases hread.eq_newline_or with ⟨hnewline, -⟩ | hnone
  · rw [hnewline] at hlexeme
    cases hlexeme with
    | same _ hrest =>
      cases hrest
      refine ⟨{ g with outcome := outcome }, behind', ?_, hbehind, hread', houtcome⟩
      rw [chars, ← hnewline]
      rfl
    | inserted hrest =>
      cases hrest
      obtain ⟨g', hchars, hlexeme', houtcome'⟩ :=
        exists_returnInLayout { g with outcome := outcome }
      refine ⟨g', behind', ?_, hbehind, ?_, ?_⟩
      · rw [hchars]
        rfl
      · rw [hlexeme', houtcome', ← hnewline]
        exact hread'
      · rw [houtcome']
        exact houtcome
  · obtain rfl := hlexeme.eq_of_not_mem hnone
    exact ⟨{ g with outcome := outcome }, behind', rfl, hbehind, hread', houtcome⟩

end Segment

/-- With carriage returns before line ends, a text is cut into segments with the same lexemes. -/
theorem CutInto.exists_withReturns {plain returned : List Char} {gs : List Segment}
    (h : CutInto plain gs) (hreturns : WithReturns plain returned) :
    ∃ gs', CutInto returned gs' ∧
      gs'.map (fun g => g.outcome.toOption) = gs.map (fun g => g.outcome.toOption) := by
  induction h generalizing returned with
  | nil =>
    cases hreturns
    exact ⟨[], .nil, rfl⟩
  | cons hread hbehind ih =>
    obtain ⟨g', behind', rfl, hrest, hread', houtcome⟩ := Segment.exists_withReturns hread hreturns
    obtain ⟨gs', hgs', houtcomes⟩ := ih hrest
    refine ⟨g' :: gs', .cons hread' hgs', ?_⟩
    rw [List.map_cons, List.map_cons, houtcome, houtcomes]

/-! ## Answers -/

/-- The word of an answer that is a token. -/
def word? (answer : Except Diagnostic Token) : Option (Kind × String) :=
  answer.toOption.map Token.word

theorem Segment.word?_answer (filename : String) (before : List Char) (g : Segment)
    (behind : List Char) : word? (g.answer filename before behind) = g.outcome.toOption := by
  rw [answer]
  cases g.outcome
  all_goals rfl

theorem map_word?_segmentAnswers (filename : String) (before : List Char) (gs : List Segment) :
    (segmentAnswers filename before gs).map word? = gs.map fun g => g.outcome.toOption := by
  induction gs generalizing before with
  | nil => rfl
  | cons g gs ih => rw [segmentAnswers, List.map_cons, g.word?_answer, ih, List.map_cons]

/-- If one of two lists of answers has the words of the other, tokens are answered with
tokens. -/
theorem exists_tokens_of_map_word? {answers : List (Except Diagnostic Token)} {ts : List Token}
    (h : answers.map word? = ts.map fun t => some t.word) :
    ∃ ts' : List Token, answers = ts'.map .ok ∧ ts'.map Token.word = ts.map Token.word := by
  induction ts generalizing answers with
  | nil => exact ⟨[], List.map_eq_nil_iff.mp h, rfl⟩
  | cons t ts ih =>
    obtain ⟨answer, answers, rfl, hanswer, hanswers⟩ := List.map_eq_cons_iff.mp h
    obtain ⟨ts', rfl, hts'⟩ := ih hanswers
    cases answer with
    | error d => cases hanswer
    | ok t' =>
      refine ⟨t' :: ts', rfl, ?_⟩
      rw [List.map_cons, List.map_cons, hts', Option.some.inj hanswer]

namespace Source

variable {filename filename' plain returned : String}

/-- Carriage returns before line ends change no token: where the one text is answered with a token
the other is answered with the same token, and where the one is answered with a fault so is the
other. -/
theorem words?_events_of_withReturns (h : WithReturns plain.toList returned.toList) :
    (ofString filename' returned).events.map word? = (ofString filename plain).events.map word? := by
  obtain ⟨gs, hgs⟩ := (wholeLines_concat plain.toList).exists_cutInto
  obtain ⟨gs', hgs', houtcomes⟩ := hgs.exists_withReturns (h.append (.refl ['\n']))
  rw [events_ofString filename hgs, events_ofString filename' hgs', answersBehind, answersBehind,
    List.map_append, List.map_append, map_word?_segmentAnswers, map_word?_segmentAnswers,
    houtcomes]
  rfl

/-- If one of two sources is read without a fault and the other is answered with the same words,
that one is read without a fault as well, and as the same words. -/
theorem tokens_of_words?_events {s s' : Source} (hclean : s.tokenize.failure = none)
    (h : s'.events.map word? = s.events.map word?) :
    s'.tokenize.failure = none ∧
      s'.tokenize.tokens.map Token.word = s.tokenize.tokens.map Token.word := by
  rw [events_of_clean hclean, List.map_map] at h
  obtain ⟨ts', hevents, hwords⟩ := exists_tokens_of_map_word? h
  obtain ⟨hclean', rfl⟩ := tokenize_of_events hevents
  exact ⟨hclean', hwords⟩

end Source
end PocketBasic

import PocketBasic.Proofs.Lexing.Lines

/-!
# Writing tokens and reading them again

A word is a kind of token with a text.  The words that are well formed are written down as
their lexemes: a string in quotes, every other word as its text (`lexemeOf`), and a list of
words with blanks between them (`written`).

What is written is read again: a blank or a line end behind a lexeme is enough to end it
(`WellFormed.readAs`), so the written text is cut into the segments that its words are
(`exists_cutInto_written`).  And every token is a well-formed word, the end of the input apart,
so what a source is read as can be written.

Main statement: writing words and reading them gives the words back, with the line end and the
end of the input that every text has; every token is a well-formed word; and so the tokens of
any source that is read without a fault can be written and read again
(`Source.tokenize_written`).
-/

namespace PocketBasic

/-! ## Well-formed words -/

/-- The kinds and texts that tokens have, the end of the input apart. -/
inductive WellFormed : Kind → String → Prop where
  | newline : WellFormed .newline "\n"
  | identifier {text : String} (h : IsWord text.toList) (hkeyword : ∀ k : Keyword, k.text ≠ text) :
    WellFormed .identifier text
  | number {text : String} (h : IsNumber text.toList) : WellFormed .number text
  | string {text : String} (h : ∀ c ∈ text.toList, c ∉ Lexeme.unquotable) : WellFormed .string text
  | keyword (k : Keyword) : WellFormed (.keyword k) k.text
  | operator (o : Operator) : WellFormed (.operator o) o.text

/-- What is spelled as its kind is a well-formed word, if it is not the end of the input. -/
theorem wellFormed_of_spells {kind : Kind} {text : String} (h : kind.Spells text)
    (hne : kind ≠ .endOfInput) : WellFormed kind text := by
  cases kind with
  | endOfInput => exact absurd rfl hne
  | newline => exact h ▸ .newline
  | number => exact .number h
  | identifier => exact .identifier h.1 h.2
  | string => exact .string fun c hc => Lexeme.isStringChar_iff.mp (h c hc)
  | keyword k => exact h ▸ .keyword k
  | operator o => exact h ▸ .operator o

/-! ## Writing -/

/-- What a word is written as. -/
def lexemeOf (word : Kind × String) : String :=
  if word.1 = .string then "\"" ++ word.2 ++ "\"" else word.2

theorem lexemeOf_string (text : String) : lexemeOf (.string, text) = "\"" ++ text ++ "\"" := rfl

theorem lexemeOf_of_ne {kind : Kind} (h : kind ≠ .string) (text : String) :
    lexemeOf (kind, text) = text := if_neg h

/-- A list of words, with a blank between each two. -/
def written (words : List (Kind × String)) : String :=
  String.intercalate " " (words.map lexemeOf)

theorem written_cons_cons (word next : Kind × String) (words : List (Kind × String)) :
    (written (word :: next :: words)).toList =
      (lexemeOf word).toList ++ ' ' :: (written (next :: words)).toList := by
  simp only [written, List.map_cons, String.intercalate_cons_cons, String.toList_append,
    List.append_assoc]
  rfl

/-- A blank or a line end stands at the front of a text. -/
def Parted (behind : List Char) : Prop := ∃ c rest, behind = c :: rest ∧ (c = ' ' ∨ c = '\n')

theorem Parted.noneAhead {p : Char → Bool} {behind : List Char} (h : Parted behind)
    (hblank : p ' ' = false) (hend : p '\n' = false) : Lexeme.NoneAhead p behind := by
  obtain ⟨c, rest, rfl, rfl | rfl⟩ := h
  · exact Lexeme.noneAhead_cons.mpr hblank
  · exact Lexeme.noneAhead_cons.mpr hend

theorem exists_ofList_eq (text : String) : ∃ cs, text = String.ofList cs :=
  ⟨text.toList, String.ofList_toList.symm⟩

/-- The lexeme of a well-formed word is read as the word. -/
theorem WellFormed.readAs {kind : Kind} {text : String} {behind : List Char}
    (h : WellFormed kind text) (hparted : Parted behind) :
    Lexeme.ReadAs (lexemeOf (kind, text)).toList behind (.ok (kind, text)) := by
  cases h with
  | newline => exact .newline behind
  | keyword k => exact .keyword k (hparted.noneAhead rfl rfl)
  | operator o => exact .operator o fun _ => hparted.noneAhead rfl rfl
  | identifier h hkeyword =>
    obtain ⟨cs, rfl⟩ := exists_ofList_eq text
    rw [String.toList_ofList] at h
    rw [lexemeOf_of_ne (by decide), String.toList_ofList]
    exact .identifier h hkeyword (hparted.noneAhead rfl rfl)
  | string h =>
    obtain ⟨cs, rfl⟩ := exists_ofList_eq text
    rw [String.toList_ofList] at h
    rw [lexemeOf_string, String.toList_append, String.toList_append,
      String.toList_ofList (l := cs)]
    exact .string h
  | number h =>
    obtain ⟨cs, rfl⟩ := exists_ofList_eq text
    rw [String.toList_ofList] at h
    rw [lexemeOf_of_ne (by decide), String.toList_ofList]
    cases h with
    | whole h => exact .integer h (hparted.noneAhead rfl rfl) (hparted.noneAhead rfl rfl)
    | fraction h h' => exact .fraction h h' (hparted.noneAhead rfl rfl)

/-- Behind the lexeme of the first word stands a blank and then the next word, or nothing. -/
theorem exists_gap (word : Kind × String) (words : List (Kind × String)) :
    ∃ gap : List Char, (∀ c ∈ gap, c = ' ' ∨ c = '\t' ∨ c = '\r') ∧
      Parted (gap ++ ((written words).toList ++ ['\n'])) ∧
      (written (word :: words)).toList =
        (lexemeOf word).toList ++ (gap ++ (written words).toList) := by
  cases words with
  | nil =>
    refine ⟨[], List.forall_mem_nil _, ⟨'\n', [], rfl, .inr rfl⟩, ?_⟩
    rw [written, List.map_cons, List.map_nil, String.intercalate_singleton]
    exact (List.append_nil _).symm
  | cons next words =>
    exact ⟨[' '], by simp, ⟨' ', _, rfl, .inl rfl⟩, written_cons_cons word next words⟩

/-- Written words are cut into segments that are read as the words, and a line end behind
them. -/
theorem exists_cutInto_written {words : List (Kind × String)}
    (h : ∀ word ∈ words, WellFormed word.1 word.2) {blanks : List Char}
    (hblanks : ∀ c ∈ blanks, c = ' ' ∨ c = '\t' ∨ c = '\r') :
    ∃ gs, CutInto (blanks ++ ((written words).toList ++ ['\n'])) gs ∧
      gs.map Segment.outcome = (words ++ [(Kind.newline, "\n")]).map .ok := by
  induction words generalizing blanks with
  | nil =>
    let g : Segment := ⟨blanks, [], ['\n'], .ok (.newline, "\n"), hblanks, .inl rfl⟩
    have hcut : CutInto (g.chars ++ []) [g] := .cons (Lexeme.ReadAs.newline []) .nil
    refine ⟨[g], ?_, rfl⟩
    simpa [g, Segment.chars, Segment.layout, written] using hcut
  | cons word words ih =>
    obtain ⟨hword, hwords⟩ := List.forall_mem_cons.mp h
    obtain ⟨gap, hgap, hparted, htext⟩ := exists_gap word words
    obtain ⟨gs, hgs, houtcomes⟩ := ih hwords hgap
    let g : Segment := ⟨blanks, [], (lexemeOf word).toList, .ok word, hblanks, .inl rfl⟩
    have hcut : CutInto (g.chars ++ (gap ++ ((written words).toList ++ ['\n']))) (g :: gs) :=
      .cons (hword.readAs hparted) hgs
    refine ⟨g :: gs, ?_, ?_⟩
    · rw [htext]
      simpa [g, Segment.chars, Segment.layout] using hcut
    · rw [List.map_cons, houtcomes]
      rfl

/-! ## Reading -/

/-- The kind and the text of a token. -/
def Token.word (t : Token) : Kind × String := (t.kind, t.text)

/-- Segments that are read as words are answered with tokens that are these words. -/
theorem segmentAnswers_of_words {gs : List Segment} {words : List (Kind × String)}
    (h : gs.map Segment.outcome = words.map .ok) (filename : String) (before : List Char) :
    ∃ ts : List Token, segmentAnswers filename before gs = ts.map .ok ∧ ts.map Token.word = words := by
  induction gs generalizing words before with
  | nil =>
    obtain rfl : words = [] := List.map_eq_nil_iff.mp h.symm
    exact ⟨[], rfl, rfl⟩
  | cons g gs ih =>
    obtain ⟨word, words, rfl, hword, hwords⟩ := List.map_eq_cons_iff.mp h.symm
    obtain ⟨ts, hts, rfl⟩ := ih hwords.symm (before ++ g.chars)
    refine ⟨⟨word.1, word.2, placeBehind filename (before ++ g.layout)⟩ :: ts, ?_, rfl⟩
    rw [segmentAnswers, hts, Segment.answer, ← hword]
    rfl

/-- Whole lines are answered with a line end last. -/
theorem segmentAnswers_of_wholeLines {text : List Char} {gs : List Segment} (h : CutInto text gs)
    (hlines : WholeLines text) (hne : text ≠ []) (filename : String) (before : List Char) :
    ∃ front place, segmentAnswers filename before gs = front ++ [.ok ⟨.newline, "\n", place⟩] := by
  induction h generalizing before with
  | nil => exact absurd rfl hne
  | @cons g behind gs hread hbehind ih =>
    cases hbehind with
    | nil =>
      have hmem := Segment.newline_mem hlines hread
      rw [List.append_nil] at hmem
      rcases hread.eq_newline_or with ⟨-, houtcome⟩ | hnone
      · refine ⟨[], placeBehind filename (before ++ g.layout), ?_⟩
        rw [segmentAnswers, Segment.answer, houtcome]
        rfl
      · exact absurd hmem hnone
    | @cons next rest gs hnext hrest =>
      have hbehind : next.chars ++ rest ≠ [] :=
        List.append_ne_nil_of_left_ne_nil
          (List.ne_nil_of_length_pos (Segment.length_chars_pos hnext)) rest
      obtain ⟨front, place, hfront⟩ := ih hlines.of_append hbehind (before ++ g.chars)
      refine ⟨g.answer filename before ((next :: gs).flatMap Segment.chars) :: front, place, ?_⟩
      rw [segmentAnswers, hfront, List.cons_append]

namespace Source

/-- A source whose events are all tokens is read without a fault as these tokens. -/
theorem tokenize_of_events {s : Source} {ts : List Token} (h : s.events = ts.map .ok) :
    s.tokenize.failure = none ∧ s.tokenize.tokens = ts := by
  have hclean : s.tokenize.failure = none := by
    refine Option.eq_none_iff_forall_not_mem.mpr fun d hd => ?_
    obtain ⟨rest, hrest⟩ := events_of_failure hd
    have hmem : .error d ∈ ts.map Except.ok := by
      rw [← h, hrest]
      exact List.mem_append_right _ List.mem_cons_self
    obtain ⟨t, -, ht⟩ := List.mem_map.mp hmem
    cases ht
  refine ⟨hclean, ?_⟩
  rw [events_of_clean hclean] at h
  exact List.map_injective_iff.mpr (fun _ _ => Except.ok.inj) h

/-- A text whose segments are read as words, with a line end behind them, is read as these
words. -/
theorem tokenize_of_cutInto (filename : String) {text : String} {gs : List Segment}
    {words : List (Kind × String)} (h : CutInto (text.toList ++ ['\n']) gs)
    (houtcomes : gs.map Segment.outcome = (words ++ [(Kind.newline, "\n")]).map .ok) :
    (ofString filename text).tokenize.failure = none ∧
      (ofString filename text).tokenize.tokens.map Token.word =
        words ++ [(.newline, "\n"), (.endOfInput, "")] := by
  obtain ⟨ts, hts, hwords⟩ := segmentAnswers_of_words houtcomes filename []
  have hevents := events_ofString filename h
  rw [answersBehind, hts, ← List.map_singleton, ← List.map_append] at hevents
  obtain ⟨hclean, htokens⟩ := tokenize_of_events hevents
  refine ⟨hclean, ?_⟩
  rw [htokens, List.map_append, hwords, List.append_assoc]
  rfl

/-- Written words are read again. -/
theorem tokenize_of_wellFormed (filename : String) {words : List (Kind × String)}
    (h : ∀ word ∈ words, WellFormed word.1 word.2) :
    (ofString filename (written words)).tokenize.failure = none ∧
      (ofString filename (written words)).tokenize.tokens.map Token.word =
        words ++ [(.newline, "\n"), (.endOfInput, "")] := by
  obtain ⟨gs, hgs, houtcomes⟩ := exists_cutInto_written h (List.forall_mem_nil _)
  exact tokenize_of_cutInto filename hgs houtcomes

/-- Where a source is read without a fault, its tokens are well-formed words, and a line end and
the end of the input behind them. -/
theorem exists_words_of_clean {filename text : String}
    (h : (ofString filename text).tokenize.failure = none) :
    ∃ words : List (Kind × String), (∀ word ∈ words, WellFormed word.1 word.2) ∧
      (ofString filename text).tokenize.tokens.map Token.word =
        words ++ [(.newline, "\n"), (.endOfInput, "")] := by
  have hlines := wholeLines_concat text.toList
  obtain ⟨gs, hgs⟩ := hlines.exists_cutInto
  obtain ⟨front, place, hfront⟩ := segmentAnswers_of_wholeLines hgs hlines
    (List.append_ne_nil_of_right_ne_nil _ (List.cons_ne_nil _ _)) filename []
  have hevents := events_of_clean h
  rw [events_ofString filename hgs, answersBehind, hfront, List.append_assoc] at hevents
  obtain ⟨ts, ends, htokens, -, hends⟩ := List.map_eq_append_iff.mp hevents.symm
  obtain ⟨newline, stop, rfl, hnewline, hstop⟩ :
      ∃ newline stop, ends = [newline, stop] ∧ newline.word = (.newline, "\n") ∧
        stop.word = (.endOfInput, "") := by
    have hmap : ends.map Except.ok = [_, _].map (Except.ok (ε := Diagnostic)) := hends
    exact ⟨_, _, List.map_injective_iff.mpr (fun _ _ => Except.ok.inj) hmap, rfl, rfl⟩
  obtain ⟨others, last, hothers, -, hne, -⟩ := answer_of_clean h
  have hsame : ts ++ [newline] = others := by
    rw [htokens, List.append_cons] at hothers
    exact (List.append_inj' hothers rfl).1
  refine ⟨ts.map Token.word, ?_, ?_⟩
  · intro word hword
    obtain ⟨t, ht, rfl⟩ := List.mem_map.mp hword
    have hkind := hne t (hsame ▸ List.mem_append_left _ ht)
    exact wellFormed_of_spells
      (spells_of_mem_tokens (htokens ▸ List.mem_append_left _ ht)) hkind
  · rw [htokens, List.map_append, List.map_cons, List.map_singleton, hnewline, hstop]

/-- Well-formed words that are written are read again, without a fault, with the line end and
the end of the input that every text has.  Every token but the end of the input is a well-formed
word.  And so the tokens of a source that is read without a fault can be written, without the
last line end and the end of the input, and are read again. -/
theorem tokenize_written :
    (∀ (filename : String) (words : List (Kind × String)),
      (∀ word ∈ words, WellFormed word.1 word.2) →
        (ofString filename (written words)).tokenize.failure = none ∧
        (ofString filename (written words)).tokenize.tokens.map Token.word =
          words ++ [(.newline, "\n"), (.endOfInput, "")]) ∧
    (∀ (s : Source) (t : Token), s.next.1 = .ok t → t.kind ≠ .endOfInput →
      WellFormed t.kind t.text) ∧
    ∀ filename text : String, (ofString filename text).tokenize.failure = none →
      ∃ words : List (Kind × String),
        (ofString filename text).tokenize.tokens.map Token.word =
          words ++ [(.newline, "\n"), (.endOfInput, "")] ∧
        (ofString filename (written words)).tokenize.failure = none ∧
        (ofString filename (written words)).tokenize.tokens.map Token.word =
          (ofString filename text).tokenize.tokens.map Token.word := by
  refine ⟨fun filename words h => tokenize_of_wellFormed filename h,
    fun s t ht hne => wellFormed_of_spells (spells_of_next ht) hne, fun filename text hclean => ?_⟩
  obtain ⟨words, hwords, htokens⟩ := exists_words_of_clean hclean
  obtain ⟨hwritten, hagain⟩ := tokenize_of_wellFormed filename hwords
  exact ⟨words, htokens, hwritten, hagain.trans htokens.symm⟩

/-- A keyword, a string with a `#` in it, and a name that begins with a keyword. -/
theorem tokenize_written_three_words :
    written [(.keyword .PRINT, "PRINT"), (.string, "#1"), (.identifier, "PRINTS")] =
        "PRINT \"#1\" PRINTS" ∧
      (ofString defaultName "PRINT \"#1\" PRINTS").tokenize.failure = none ∧
      (ofString defaultName "PRINT \"#1\" PRINTS").tokenize.tokens.map Token.word =
        [(.keyword .PRINT, "PRINT"), (.string, "#1"), (.identifier, "PRINTS"), (.newline, "\n"),
          (.endOfInput, "")] ∧
      ∃ words : List (Kind × String),
        (ofString defaultName (written words)).tokenize.tokens.map Token.word =
          (ofString defaultName "PRINT \"#1\" PRINTS").tokenize.tokens.map Token.word := by
  have hwords : ∀ word ∈ [(Kind.keyword .PRINT, "PRINT"), (.string, "#1"), (.identifier, "PRINTS")],
      WellFormed word.1 word.2 := by
    have hkeyword : WellFormed (.keyword .PRINT) "PRINT" := .keyword .PRINT
    have hstring : WellFormed .string "#1" := .string (by simp [Lexeme.unquotable])
    have hname : WellFormed .identifier "PRINTS" := by
      refine .identifier ⟨'P', _, rfl, rfl, List.all_eq_true.mp rfl⟩ fun k => ?_
      cases k
      all_goals decide
    simpa using ⟨hkeyword, hstring, hname⟩
  have htext : written [(Kind.keyword .PRINT, "PRINT"), (.string, "#1"), (.identifier, "PRINTS")] =
      "PRINT \"#1\" PRINTS" := by decide
  obtain ⟨hclean, htokens⟩ := tokenize_written.1 defaultName _ hwords
  rw [htext] at hclean htokens
  obtain ⟨words, -, -, hagain⟩ := tokenize_written.2.2 defaultName _ hclean
  exact ⟨htext, hclean, htokens, words, hagain⟩

end Source
end PocketBasic

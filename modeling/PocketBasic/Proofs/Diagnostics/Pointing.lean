import PocketBasic.Proofs.Diagnostics.Places
import PocketBasic.Proofs.Faults.FirstFault

/-!
# Diagnostics point at what they talk about

A place is between two parts of a text, and its line is what stands around it.  `Shows` says for
every cause that a text can be rejected for what stands on that line before the place and behind
it: the character, the operator or the quote that a lexical fault is about, the name that is not
declared, or the token that does not fit.

Main statement: a text that is rejected can be cut into two parts such that the diagnostic is
about the place between them and the line around it, and its cause shows there
(`exists_pointsBetween`).  It does not matter how the place came about: lexical faults bring the
line along, other faults look it up.
-/

namespace PocketBasic

/-! ## What a cause is about -/

/-- The name of an identifier stands at a place, in front of the rest of a line. -/
def Source.NameAt (s : Source) (place : Location) (rest : List Char) (name : String) : Prop :=
  ∃ t ∈ s.tokenize.tokens, t.kind = .identifier ∧ t.text = name ∧ t.location = place ∧
    name.toList <+: rest

/-- What a cause is about shows at a place.  The line of the place is cut there into its head
and its rest. -/
inductive Shows (s : Source) (place : Location) (head rest : List Char) : Cause → Prop where
  | invalidCharacter {c : Char} (h : rest.head? = some c) :
    Shows s place head rest (.lexical (.invalidCharacter c))
  | illegalInString {c : Char} (h : rest.head? = some c) :
    Shows s place head rest (.lexical (.illegalInString c.toString))
  /-- The quote that opens a string, with none behind it on its line to close the string. -/
  | unterminatedString {body : List Char} (h : rest = '"' :: body) (hopen : '"' ∉ body) :
    Shows s place head rest (.lexical .unterminatedString)
  | malformedOperator (found : String) (h : rest.head? = some '!') :
    Shows s place head rest (.lexical (.malformedOperator "!=" found))
  /-- The character behind the point of a number. -/
  | malformedNumber {c : Char} (hpoint : head.getLast? = some '.') (h : rest.head? = some c) :
    Shows s place head rest (.lexical (.malformedNumber c.toString))
  /-- The end of the line behind the point of a number. -/
  | malformedNumberAtEnd (hpoint : head.getLast? = some '.') (h : rest = []) :
    Shows s place head rest (.lexical (.malformedNumber "\n"))
  | undeclaredVariable {name : String} (h : s.NameAt place rest name) :
    Shows s place head rest (.naming (.undeclaredVariable name))
  /-- The label, which was first declared in the same file. -/
  | duplicateLabel {name : String} (h : s.NameAt place rest name) {first : Location}
    (hfirst : first.filename = place.filename) :
    Shows s place head rest (.naming (.duplicateLabel name (some first)))
  | undeclaredLabel {name : String} (h : s.NameAt place rest name) :
    Shows s place head rest (.naming (.undeclaredLabel name))
  /-- The token that does not fit, as it is written. -/
  | token (e : Expectation) {t : Token} (ht : t ∈ s.tokenize.tokens) (hplace : t.location = place)
    (hnewline : t.kind ≠ .newline) (hend : t.kind ≠ .endOfInput)
    (h : (lexemeOf t.word).toList <+: rest) : Shows s place head rest (.grammar (e.fault t))
  /-- The end of the line, if that is what does not fit. -/
  | newline (e : Expectation) {t : Token} (ht : t ∈ s.tokenize.tokens) (hplace : t.location = place)
    (hk : t.kind = .newline) (h : rest = []) : Shows s place head rest (.grammar (e.fault t))
  /-- The last line, which is empty, if the end of the input does not fit. -/
  | endOfInput (e : Expectation) {t : Token} (ht : t ∈ s.tokenize.tokens)
    (hplace : t.location = place) (hk : t.kind = .endOfInput)
    (hlast : place.line = (s.text.toList.splitOn '\n').length) (hhead : head = []) (h : rest = []) :
    Shows s place head rest (.grammar (e.fault t))

/-- A diagnostic is about the place between two parts of a text. -/
structure Diagnostic.PointsBetween (d : Diagnostic) (filename text : String)
    (before behind : List Char) : Prop where
  text_eq : (text ++ "\n").toList = before ++ behind
  location : d.location = some (placeBehind filename before)
  sourceLine : d.sourceLine = some (lineAround before behind)
  shows : Shows (.ofString filename text) (placeBehind filename before) (lastLine before)
    (lineAhead behind) d.cause

/-! ## Tokens -/

/-- A token is read from its lexeme. -/
theorem Lexeme.ReadAs.eq_lexemeOf {lexeme behind : List Char} {word : Kind × String}
    (h : ReadAs lexeme behind (.ok word)) : lexeme = (lexemeOf word).toList := by
  cases h with
  | newline | keyword k | operator o => rfl
  | identifier | integer | fraction =>
    rw [lexemeOf_of_ne (by decide), String.toList_ofList]
  | @string body behind =>
    rw [lexemeOf_string, String.toList_append, String.toList_append,
      String.toList_ofList (l := body)]
    rfl

namespace Source

variable {filename text : String} {t : Token}

/-- A token stands where its lexeme does. -/
theorem exists_cut_of_mem_tokens (ht : t ∈ (ofString filename text).tokenize.tokens) :
    ∃ before more, (text ++ "\n").toList = before ++ ((lexemeOf t.word).toList ++ more) ∧
      t.location = placeBehind filename before ∧
      (t.kind = .endOfInput → before = (text ++ "\n").toList) ∧
      (t.kind = .newline ∨ '\n' ∉ (lexemeOf t.word).toList) := by
  rcases exists_cut_of_mem_events (mem_events_of_mem_tokens ht) with
    ⟨g, front, behind, htext, hread, hanswer⟩ | hanswer
  · unfold Segment.answer at hanswer
    split at hanswer
    · rename_i kind word houtcome
      obtain rfl := Except.ok.inj hanswer
      rw [houtcome] at hread
      have hlexeme : g.lexeme = (lexemeOf (kind, word)).toList := hread.eq_lexemeOf
      refine ⟨front ++ g.layout, behind, ?_, rfl, fun hk => absurd hk hread.kind_ne_endOfInput, ?_⟩
      · rw [htext, Segment.chars, hlexeme, List.append_assoc, List.append_assoc]
        rfl
      · rcases hread.eq_newline_or with ⟨-, hnewline⟩ | hnone
        · exact .inl (congrArg Prod.fst (Except.ok.inj hnewline))
        · exact .inr (hlexeme ▸ hnone)
    · cases hanswer
  · obtain rfl := Except.ok.inj hanswer
    refine ⟨(text ++ "\n").toList, [], ?_, rfl, fun _ => rfl, .inr List.not_mem_nil⟩
    exact (List.append_nil _).symm

/-- What is reported about a token points at it, if its cause shows there. -/
theorem pointsBetween_report {cause : Cause} {before behind : List Char}
    (htext : (text ++ "\n").toList = before ++ behind)
    (hshows : Shows (ofString filename text) (placeBehind filename before) (lastLine before)
      (lineAhead behind) cause) :
    ((ofString filename text).report cause (placeBehind filename before)).PointsBetween
      filename text before behind :=
  ⟨htext, rfl, (ofString filename text).line?_placeBehind htext, hshows⟩

/-- An identifier shows where it stands. -/
theorem exists_nameAt (ht : t ∈ (ofString filename text).tokenize.tokens)
    (hk : t.kind = .identifier) :
    ∃ before behind, (text ++ "\n").toList = before ++ behind ∧
      t.location = placeBehind filename before ∧
      (ofString filename text).NameAt (placeBehind filename before) (lineAhead behind) t.text := by
  obtain ⟨before, more, htext, hlocation, -, hline⟩ := exists_cut_of_mem_tokens ht
  have hlexeme : lexemeOf t.word = t.text := by
    rw [Token.word, hk]
    exact lexemeOf_of_ne (by decide) _
  have hnone : '\n' ∉ (lexemeOf t.word).toList := by
    refine hline.resolve_left ?_
    rw [hk]
    exact Kind.noConfusion
  refine ⟨before, _, htext, hlocation, t, ht, hk, rfl, hlocation, ?_⟩
  rw [lineAhead_append hnone, hlexeme]
  exact List.prefix_append _ _

/-- A token that does not fit shows where it stands. -/
theorem exists_shows_grammar (ht : t ∈ (ofString filename text).tokenize.tokens)
    (e : Expectation) :
    ∃ before behind, (text ++ "\n").toList = before ++ behind ∧
      t.location = placeBehind filename before ∧
      Shows (ofString filename text) (placeBehind filename before) (lastLine before)
        (lineAhead behind) (.grammar (e.fault t)) := by
  obtain ⟨before, more, htext, hlocation, hlast, hline⟩ := exists_cut_of_mem_tokens ht
  refine ⟨before, _, htext, hlocation, ?_⟩
  have hspells := spells_of_mem_tokens ht
  by_cases hend : t.kind = .endOfInput
  · have hbefore := hlast hend
    have hbehind : (lexemeOf t.word).toList ++ more = [] := by
      rw [hbefore] at htext
      exact List.self_eq_append_right.mp htext
    have hlines : before = text.toList ++ ['\n'] := by
      rw [hbefore, String.toList_append]
      rfl
    refine .endOfInput e ht hlocation hend ?_ ?_ ?_
    · show (before.count '\n' : Int) + 1 = ((text ++ "\n").toList.splitOn '\n').length
      rw [length_splitOn, ← hbefore]
      rfl
    · rw [hlines, lastLine_concat_newline]
    · rw [hbehind]
      rfl
  · by_cases hnewline : t.kind = .newline
    · rw [hnewline] at hspells
      have htoken : lexemeOf t.word = "\n" := by
        rw [Token.word, hnewline, hspells]
        rfl
      refine .newline e ht hlocation hnewline ?_
      rw [htoken]
      rfl
    · refine .token e ht hlocation hnewline hend ?_
      rw [lineAhead_append (hline.resolve_left hnewline)]
      exact List.prefix_append _ _

/-! ## Lexical faults -/

end Source

theorem head?_lineAhead {c : Char} (hc : c ≠ '\n') (behind : List Char) :
    (lineAhead (c :: behind)).head? = some c := by
  rw [lineAhead, List.takeWhile_cons_of_pos (by simpa using hc)]
  rfl

/-- The lexeme of a fault begins with what the fault is about, or stands before it. -/
theorem Lexeme.ReadAs.shows {lexeme behind : List Char} {fault : LexicalFault}
    (h : ReadAs lexeme behind (.error fault)) (hne : behind ≠ []) (s : Source) (place : Location)
    (before : List Char) :
    Shows s place (lastLine (if fault.isBehind then before ++ lexeme else before))
      (lineAhead (if fault.isBehind then behind else lexeme ++ behind)) (.lexical fault) := by
  cases h with
  | invalidCharacter _ hstarters =>
    refine .invalidCharacter (head?_lineAhead ?_ _)
    rintro rfl
    exact hstarters (by decide)
  | malformedOperator => exact .malformedOperator _ (head?_lineAhead (by decide) _)
  | @unterminatedString body behind hbody hend =>
    have hline : '\n' ∉ '"' :: body := by
      rw [List.mem_cons, not_or]
      exact ⟨by decide, fun hmem => hbody _ hmem (by decide)⟩
    have hbehind : lineAhead behind = [] := by
      obtain ⟨c, rest, rfl⟩ := List.exists_cons_of_ne_nil hne
      exact List.takeWhile_cons_of_neg (Bool.eq_false_iff.mp (Lexeme.noneAhead_cons.mp hend))
    have hrest : lineAhead ('"' :: body ++ behind) = '"' :: body := by
      rw [lineAhead_append hline, hbehind, List.append_nil]
    exact .unterminatedString hrest fun hmem => hbody _ hmem (by decide)
  | illegalInString _ _ _ hend => exact .illegalInString (head?_lineAhead hend _)
  | @malformedNumber digits =>
    have hpoint : (lastLine (before ++ (digits ++ ['.']))).getLast? = some '.' := by
      rw [← List.append_assoc, lastLine_concat _ (by decide), List.getLast?_concat]
    obtain ⟨c, rest, rfl⟩ := List.exists_cons_of_ne_nil hne
    by_cases hc : c = '\n'
    · subst hc
      exact .malformedNumberAtEnd hpoint rfl
    · exact .malformedNumber hpoint (head?_lineAhead hc _)

namespace Source

variable {filename text : String} {t : Token}

/-- A lexical fault shows where it is reported. -/
theorem exists_pointsBetween_of_failure {d : Diagnostic}
    (h : (ofString filename text).tokenize.failure = some d) :
    ∃ before behind, d.PointsBetween filename text before behind := by
  rcases exists_cut_of_mem_events (mem_events_of_failure h) with
    ⟨g, front, behind, htext, hread, hanswer⟩ | hanswer
  · unfold Segment.answer at hanswer
    split at hanswer
    · cases hanswer
    · rename_i fault houtcome
      obtain rfl := Except.error.inj hanswer
      have hlines : WholeLines (g.chars ++ behind) := by
        have hwhole : WholeLines (front ++ (g.chars ++ behind)) := by
          rw [← htext, String.toList_append]
          exact wholeLines_concat _
        exact hwhole.of_append
      have hmem := Segment.newline_mem hlines hread
      rw [houtcome] at hread
      have hnone : '\n' ∉ g.lexeme := by
        rcases hread.eq_newline_or with ⟨-, hnewline⟩ | hnone
        · cases hnewline
        · exact hnone
      have hbehind : behind ≠ [] := by
        rintro rfl
        rw [List.append_nil] at hmem
        exact hnone hmem
      have hshows := fun place => hread.shows hbehind (ofString filename text) place
        (front ++ g.layout)
      refine ⟨if fault.isBehind then front ++ g.layout ++ g.lexeme else front ++ g.layout,
        if fault.isBehind then behind else g.lexeme ++ behind, ?_, ?_, ?_, hshows _⟩
      · rw [htext, Segment.chars]
        split <;> simp only [List.append_assoc]
      · rw [Segment.chars, List.append_assoc]
      · split
        · rw [lineAround_append_run hnone]
        · rfl
  · cases hanswer

/-! ## Rejected texts -/

/-- What the checks find in a list of tokens is about one of the tokens. -/
theorem exists_pointsBetween_of_firstFault {n : Nat} {fault : Fault}
    (h : firstFault (ofString filename text).tokenize.tokens n = some fault) :
    ∃ before behind, ((ofString filename text).report fault.1 fault.2).PointsBetween
      filename text before behind := by
  obtain ⟨tokens, t, later, htokens, hcheck⟩ := exists_of_firstFault h
  have ht : t ∈ (ofString filename text).tokenize.tokens := by
    rw [htokens]
    exact List.mem_append_right _ List.mem_cons_self
  rcases hcheck with hlabel | hgrammar | hvariable
  · obtain ⟨hk, first, hfirst, rfl⟩ := exists_of_labelFault? hlabel
    obtain ⟨before, behind, htext, hlocation, hname⟩ := exists_nameAt ht hk
    have hmem : first ∈ (ofString filename text).tokenize.tokens := by
      rw [htokens]
      exact List.mem_append_left _ (mem_namesBehind hfirst).1
    obtain ⟨front, more, -, hplace, -⟩ := exists_cut_of_mem_tokens hmem
    have hfile : first.location.filename = filename := by rw [hplace]; rfl
    dsimp only
    rw [hlocation]
    exact ⟨before, behind, pointsBetween_report htext (.duplicateLabel hname hfile)⟩
  · obtain ⟨c, e, -, -, rfl⟩ := exists_of_grammarFault? hgrammar
    obtain ⟨before, behind, htext, hlocation, hshows⟩ := exists_shows_grammar ht e
    dsimp only
    rw [hlocation]
    exact ⟨before, behind, pointsBetween_report htext hshows⟩
  · obtain ⟨hk, rfl⟩ := eq_of_variableFault? hvariable
    obtain ⟨before, behind, htext, hlocation, hname⟩ := exists_nameAt ht hk
    dsimp only
    rw [hlocation]
    exact ⟨before, behind, pointsBetween_report htext (.undeclaredVariable hname)⟩

/-- The first jump that leads nowhere is reported where it stands. -/
theorem exists_pointsBetween_of_danglingJump
    (h : danglingJump? (ofString filename text).tokenize.tokens = some t) :
    ∃ before behind, ((ofString filename text).report (.naming (.undeclaredLabel t.text))
      t.location).PointsBetween filename text before behind := by
  obtain ⟨ht, hk⟩ := mem_namesBehind (List.mem_of_find?_eq_some h)
  obtain ⟨before, behind, htext, hlocation, hname⟩ := exists_nameAt ht hk
  rw [hlocation]
  exact ⟨before, behind, pointsBetween_report htext (.undeclaredLabel hname)⟩

/-- The fault that a text is rejected for shows where it is reported. -/
theorem exists_pointsBetween_of_firstFault? {d : Diagnostic}
    (h : (ofString filename text).firstFault? = some d) :
    ∃ before behind, d.PointsBetween filename text before behind := by
  unfold firstFault? at h
  dsimp only at h
  split at h
  · obtain ⟨fault, hfault, rfl⟩ := Option.map_eq_some_iff.mp h
    rcases Option.or_eq_some_iff.mp hfault with hfirst | ⟨-, hjump⟩
    · exact exists_pointsBetween_of_firstFault hfirst
    · obtain ⟨t, ht, rfl⟩ := Option.map_eq_some_iff.mp hjump
      exact exists_pointsBetween_of_danglingJump ht
  · rename_i lexical hfailure
    obtain rfl := Option.some.inj h
    cases hfirst : firstFault (ofString filename text).tokenize.tokens
        ((ofString filename text).tokenize.tokens.length - 1) with
    | some fault => exact exists_pointsBetween_of_firstFault hfirst
    | none => exact exists_pointsBetween_of_failure hfailure

end Source

/-- A text that is rejected is rejected for something that shows in it. -/
theorem exists_pointsBetween {filename text : String} {d : Diagnostic}
    (h : compile filename text = .error d) :
    ∃ before behind, d.PointsBetween filename text before behind := by
  rw [compile_eq] at h
  rcases (Source.ofString filename text).draft_of_firstFault? with
    ⟨-, e, he⟩ | ⟨fault, hfirst, hdraft⟩
  · rw [he] at h
    cases h
  · rw [hdraft] at h
    obtain rfl := Except.error.inj h
    exact Source.exists_pointsBetween_of_firstFault? hfirst

end PocketBasic

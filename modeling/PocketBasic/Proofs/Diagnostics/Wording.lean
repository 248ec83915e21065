import PocketBasic.Proofs.Diagnostics.Pointing

/-!
# The wording of diagnostics

A message is laid out in lines, so no part of it may have a line end in it, although the parts
hold characters of the source and texts of tokens.  Two things keep them on one line: what a
lexical fault found is quoted, and a quote has no line ends in it (`oneLine_quote`); and whatever
else is taken from the source stands on one line there, because it shows at the place that the
message is about (`Shows.oneLine_description`, `Shows.oneLine_hint`).

Main statement: `compile_points`, which says where a diagnostic is, what stands there, and what
the lines of its message are.
-/

namespace PocketBasic

/-! ## Texts without a line end -/

theorem oneLine_toString_char {c : Char} (h : c ≠ '\n') : OneLine c.toString := by
  simpa [OneLine, Char.toString, eq_comm] using h

theorem oneLine_repr (n : ℕ) : OneLine n.repr := by
  rw [Nat.repr_eq_ofList_toDigits, oneLine_ofList]
  intro h
  cases Nat.isDigit_of_mem_toDigits (by decide) (by decide) h

/-- A location is cited on one line, if its file is named on one. -/
theorem oneLine_location {place : Location} (h : OneLine place.filename) :
    OneLine (toString place) := by
  have hnumber (n : Int) : OneLine n.repr := by
    cases n with
    | ofNat n => exact oneLine_repr n
    | negSucc n =>
      show OneLine ("-" ++ (n + 1).repr)
      exact oneLine_append.mpr ⟨by decide, oneLine_repr _⟩
  have hcolon : OneLine ":" := by decide
  show OneLine (place.filename ++ ":" ++ place.line.repr ++ ":" ++ place.column.repr)
  simp only [oneLine_append]
  exact ⟨⟨⟨⟨h, hcolon⟩, hnumber _⟩, hcolon⟩, hnumber _⟩

/-- What holds of the first digits and of the character that stands for all others holds of every
digit. -/
theorem forall_digitChar {P : Char → Prop} (h : ∀ k < 17, P (Nat.digitChar k)) (n : ℕ) :
    P (Nat.digitChar n) := by
  rcases Nat.lt_or_ge n 17 with hn | hn
  · exact h n hn
  · have hlarge : Nat.digitChar n = Nat.digitChar 16 := by
      unfold Nat.digitChar
      repeat rw [if_neg (by omega)]
    rw [hlarge]
    exact h 16 (by decide)

theorem digitChar_ne_newline (n : ℕ) :
    Nat.digitChar n ≠ '\n' ∧ (Nat.digitChar n).toUpper ≠ '\n' :=
  forall_digitChar (P := fun c => c ≠ '\n' ∧ c.toUpper ≠ '\n') (by decide) n

/-- The characters of a number are digits. -/
theorem exists_of_mem_toDigits {b n : ℕ} {c : Char} (h : c ∈ Nat.toDigits b n) :
    ∃ k, c = Nat.digitChar k := by
  have hcore : ∀ fuel n (ds : List Char), c ∈ Nat.toDigitsCore b fuel n ds →
      c ∈ ds ∨ ∃ k, c = Nat.digitChar k := by
    intro fuel
    induction fuel with
    | zero =>
      intro n ds hmem
      exact .inl hmem
    | succ fuel ih =>
      intro n ds hmem
      rw [Nat.toDigitsCore] at hmem
      split at hmem
      · exact (List.mem_cons.mp hmem).symm.imp id fun h => ⟨_, h⟩
      · rcases ih _ _ hmem with hmem | hdigit
        · exact (List.mem_cons.mp hmem).symm.imp id fun h => ⟨_, h⟩
        · exact .inr hdigit
  exact (hcore _ _ _ h).resolve_left List.not_mem_nil

theorem oneLine_codePointText (c : Char) : OneLine (codePointText c) := by
  refine oneLine_append.mpr ⟨by decide, oneLine_ofList.mpr ?_⟩
  intro h
  rw [List.leftpad, List.mem_append] at h
  rcases h with h | h
  · cases List.eq_of_mem_replicate h
  · obtain ⟨d, hd, hupper⟩ := List.mem_map.mp h
    obtain ⟨k, rfl⟩ := exists_of_mem_toDigits hd
    exact (digitChar_ne_newline k).2 hupper

theorem not_mem_hexDigits (width n : ℕ) : '\n' ∉ Text.hexDigits width n := by
  induction width generalizing n with
  | zero => exact List.not_mem_nil
  | succ width ih =>
    rw [Text.hexDigits, List.mem_append, not_or, List.mem_singleton]
    exact ⟨ih _, (digitChar_ne_newline _).1.symm⟩

/-- Between quotes a line end is written as something else. -/
theorem not_mem_escapeChar {delimiter : Char} (h : delimiter ≠ '\n') (c : Char) :
    '\n' ∉ Text.escapeChar delimiter c := by
  unfold Text.escapeChar
  split_ifs with hspecial hnewline
  · rcases hspecial with rfl | rfl
    · simpa using h.symm
    · decide
  · decide
  · decide
  · decide
  · simpa [eq_comm] using hnewline
  · unfold Text.escapeCodePoint
    split_ifs
    all_goals simp [not_mem_hexDigits]

theorem oneLine_quote (text : String) : OneLine (Text.quote text) := by
  have hmark : Text.quoteMark text.toList ≠ '\n' := by
    unfold Text.quoteMark
    split_ifs
    all_goals decide
  rw [Text.quote, oneLine_ofList, Text.quoted]
  simp only [List.mem_cons, List.mem_append, List.mem_flatMap, not_or, not_exists,
    not_and, List.not_mem_nil, or_false]
  exact ⟨hmark.symm, fun c _ => not_mem_escapeChar hmark c, hmark.symm⟩

/-! ## Descriptions and hints -/

theorem oneLine_phrase (e : Expectation) : OneLine e.phrase := by
  cases e with
  | keyword k =>
    cases k
    all_goals decide
  | _ => decide

/-- A token that stands on one line is described on one. -/
theorem oneLine_describe {t : Token}
    (h : t.kind ≠ .newline → t.kind ≠ .endOfInput → OneLine (lexemeOf t.word)) :
    OneLine t.describe := by
  obtain ⟨kind, text, place⟩ := t
  cases kind with
  | endOfInput => exact show OneLine "end of input" by decide
  | newline => exact show OneLine "newline" by decide
  | string =>
    have htext := h Kind.noConfusion Kind.noConfusion
    have hdescribe : Token.describe ⟨.string, text, place⟩ = "string " ++ lexemeOf (.string, text) := by
      rw [lexemeOf_string, ← String.append_assoc, ← String.append_assoc]
      rfl
    rw [hdescribe, oneLine_append]
    exact ⟨by decide, htext⟩
  | number | identifier | keyword k | operator o =>
    have htext : OneLine text := h Kind.noConfusion Kind.noConfusion
    show OneLine ("'" ++ text ++ "'")
    simp only [oneLine_append]
    exact ⟨⟨by decide, htext⟩, by decide⟩

theorem oneLine_description_fault (e : Expectation) {t : Token} (h : OneLine t.describe) :
    OneLine (e.fault t).description := by
  have hphrase := oneLine_phrase e
  cases e with
  | statement | operand =>
    show OneLine ("unexpected token " ++ t.describe)
    exact oneLine_append.mpr ⟨by decide, h⟩
  | comparison =>
    show OneLine ("expected comparison operator, got " ++ t.describe)
    exact oneLine_append.mpr ⟨by decide, h⟩
  | keyword k =>
    show OneLine ("expected " ++ (Expectation.keyword k).phrase ++ ", got " ++ t.describe)
    simp only [oneLine_append]
    exact ⟨⟨⟨by decide, hphrase⟩, by decide⟩, h⟩
  | newline | labelName | variableName | equalsSign =>
    show OneLine ("expected " ++ _ ++ ", got " ++ t.describe)
    simp only [oneLine_append]
    exact ⟨⟨⟨by decide, hphrase⟩, by decide⟩, h⟩

/-- A hint is advice on one line. -/
def IsHint (hint : String) : Prop := OneLine hint ∧ hint ≠ ""

theorem isHint_fault (e : Expectation) (t : Token) : ∀ hint ∈ (e.fault t).hint, IsHint hint := by
  cases e with
  | statement | operand | comparison =>
    rintro _ ⟨⟩
    exact ⟨by decide, by decide⟩
  | keyword k | newline | labelName | variableName | equalsSign =>
    rintro _ ⟨⟩

namespace Shows

variable {s : Source} {place : Location} {head rest : List Char} {cause : Cause}

theorem oneLine_describe {t : Token} (hrest : '\n' ∉ rest)
    (h : (lexemeOf t.word).toList <+: rest) : OneLine t.describe :=
  PocketBasic.oneLine_describe fun _ _ hmem => hrest (h.subset hmem)

theorem oneLine_name {name : String} (hrest : '\n' ∉ rest) (h : s.NameAt place rest name) :
    OneLine name := by
  obtain ⟨t, -, -, -, -, hname⟩ := h
  exact fun hmem => hrest (hname.subset hmem)

/-- What shows on a line is described on one. -/
theorem oneLine_description (h : Shows s place head rest cause) (hrest : '\n' ∉ rest) :
    OneLine cause.description := by
  cases h with
  | @invalidCharacter c h =>
    have hc : c ≠ '\n' := by
      rintro rfl
      exact hrest (List.mem_of_mem_head? h)
    show OneLine ("unknown token: '" ++ c.toString ++ "' (" ++ codePointText c ++ ")")
    simp only [oneLine_append]
    exact ⟨⟨⟨⟨by decide, oneLine_toString_char hc⟩, by decide⟩, oneLine_codePointText c⟩, by decide⟩
  | unterminatedString =>
    show OneLine _
    decide
  | illegalInString =>
    show OneLine ("illegal character in string: " ++ Text.quote _)
    exact oneLine_append.mpr ⟨by decide, oneLine_quote _⟩
  | malformedNumber | malformedNumberAtEnd =>
    show OneLine ("illegal character in number: " ++ Text.quote _)
    exact oneLine_append.mpr ⟨by decide, oneLine_quote _⟩
  | malformedOperator =>
    show OneLine ("expected '" ++ "!=" ++ "', got " ++ Text.quote _)
    exact oneLine_append.mpr ⟨by decide, oneLine_quote _⟩
  | undeclaredVariable h | undeclaredLabel h | duplicateLabel h =>
    show OneLine (_ ++ _ ++ "'")
    simp only [oneLine_append]
    exact ⟨⟨by decide, oneLine_name hrest h⟩, by decide⟩
  | token e _ _ _ _ h => exact oneLine_description_fault e (oneLine_describe hrest h)
  | newline e _ _ hk _ =>
    exact oneLine_description_fault e (PocketBasic.oneLine_describe fun hne _ => absurd hk hne)
  | endOfInput e _ _ hk _ =>
    exact oneLine_description_fault e (PocketBasic.oneLine_describe fun _ hne => absurd hk hne)

/-- The advice that comes with what shows on a line is on one. -/
theorem isHint_of_mem (h : Shows s place head rest cause) (hrest : '\n' ∉ rest)
    (hfile : OneLine place.filename) : ∀ hint ∈ cause.hint, IsHint hint := by
  cases h with
  | invalidCharacter | malformedOperator | undeclaredLabel => rintro _ ⟨⟩
  | illegalInString | unterminatedString | malformedNumber | malformedNumberAtEnd
    | undeclaredVariable =>
    rintro _ ⟨⟩
    exact ⟨by decide, by decide⟩
  | @duplicateLabel name h first hfirst =>
    rintro _ ⟨⟩
    have hplace : OneLine (toString first) := oneLine_location (hfirst ▸ hfile)
    refine ⟨?_, ?_⟩
    · simp only [oneLine_append]
      exact ⟨⟨⟨by decide, oneLine_name hrest h⟩, by decide⟩, hplace⟩
    · intro hempty
      simp at hempty
  | token e | newline e | endOfInput e => exact isHint_fault e _

end Shows

/-! ## Messages -/

/-- A message whose parts are on one line each is laid out on these lines. -/
theorem Diagnostic.splitOn_message {d : Diagnostic} {place : Location} {line : String}
    {column : ℕ} (hplace : d.location = some place) (hline : d.sourceLine = some line)
    (hcolumn : place.column = column + 1) (hfile : OneLine place.filename) (honeLine : OneLine line)
    (hdescription : OneLine d.cause.description) (hhint : ∀ hint ∈ d.cause.hint, IsHint hint) :
    d.message.toList.splitOn '\n' =
      d.headline.toList :: ("    ".toList ++ line.toList) ::
        (List.replicate (4 + column) ' ' ++ ['^']) ::
        d.cause.hint.toList.map fun hint => ("hint: " ++ hint).toList := by
  have hcaret : caretLine place.column =
      [String.ofList (List.replicate (4 + column) ' ' ++ ['^'])] := by
    rw [caretLine, hcolumn, if_pos (by omega)]
    congr 4
    omega
  have hexcerpt : d.excerpt =
      ["    " ++ line, String.ofList (List.replicate (4 + column) ' ' ++ ['^'])] := by
    rw [excerpt, hline, hplace]
    exact congrArg _ hcaret
  have hhints : d.hintLine = d.cause.hint.toList.map ("hint: " ++ ·) := by
    rw [hintLine]
    cases hcase : d.cause.hint with
    | none => rfl
    | some hint => exact if_neg (hhint hint hcase).2
  have hheadline : OneLine d.headline := by
    rw [headline, hplace]
    simp only [oneLine_append]
    exact ⟨⟨oneLine_location hfile, by decide⟩, hdescription⟩
  have hnone : ∀ part ∈ d.headline :: (d.excerpt ++ d.hintLine), OneLine part := by
    rw [hexcerpt, hhints]
    intro part hpart
    simp only [List.cons_append, List.nil_append, List.mem_cons, List.mem_map, Option.mem_toList]
      at hpart
    rcases hpart with rfl | rfl | rfl | ⟨hint, hmem, rfl⟩
    · exact hheadline
    · exact oneLine_append.mpr ⟨by decide, honeLine⟩
    · refine oneLine_ofList.mpr ?_
      simp
    · exact oneLine_append.mpr ⟨by decide, (hhint hint hmem).1⟩
  have hsplit : d.message.toList.splitOn '\n' =
      (d.headline :: (d.excerpt ++ d.hintLine)).map String.toList := by
    rw [message, String.toList_intercalate]
    refine List.splitOn_intercalate '\n' ?_ (List.cons_ne_nil _ _)
    rintro _ hpart
    obtain ⟨part, hmem, rfl⟩ := List.mem_map.mp hpart
    exact hnone part hmem
  rw [hsplit, hexcerpt, hhints]
  simp [Function.comp_def]

/-- Where a diagnostic is and what its message looks like, for a text that is rejected and a file
that is named on one line.  The text is split at line ends; `row` and the length of `head` are the
numbers of the line and of the column, counted from nought.  The place is on that line or right
behind it, and what the cause is about shows there.  The message has a line for the fault, one
with the source line, one with a caret below the place, and one for the hint, if there is one. -/
theorem compile_points {filename text : String} {d : Diagnostic} (hfile : OneLine filename)
    (h : compile filename text = .error d) :
    ∃ (row : ℕ) (head rest : List Char),
      ((text ++ "\n").toList.splitOn '\n')[row]? = some (head ++ rest) ∧
      d.location = some ⟨filename, row + 1, head.length + 1⟩ ∧
      d.sourceLine = some (String.ofList (head ++ rest)) ∧
      Shows (.ofString filename text) ⟨filename, row + 1, head.length + 1⟩ head rest d.cause ∧
      d.message.toList.splitOn '\n' =
        d.headline.toList :: ("    ".toList ++ (head ++ rest)) ::
          (List.replicate (4 + head.length) ' ' ++ ['^']) ::
            d.cause.hint.toList.map fun hint => ("hint: " ++ hint).toList := by
  obtain ⟨before, behind, htext, hlocation, hline, hshows⟩ := exists_pointsBetween h
  refine ⟨before.count '\n', lastLine before, lineAhead behind, ?_, hlocation, hline, hshows, ?_⟩
  · rw [htext]
    exact getElem?_splitOn before behind
  · have hrest := not_mem_lineAhead behind
    have honeLine : OneLine (lineAround before behind) := by
      rw [lineAround, oneLine_ofList, List.mem_append, not_or]
      exact ⟨not_mem_lastLine before, hrest⟩
    have hsplit := Diagnostic.splitOn_message hlocation hline rfl hfile honeLine
      (hshows.oneLine_description hrest) (hshows.isHint_of_mem hrest hfile)
    have hline : (lineAround before behind).toList = lastLine before ++ lineAhead behind :=
      String.toList_ofList
    rw [hsplit, hline]

/-- A variable without a value on the second line: the caret stands below its name, and there is a
hint. -/
theorem compile_points_undeclared_variable :
    ∃ d, OneLine "p.tt" ∧ compile "p.tt" "LET a = 1\nPRINT b" = .error d ∧
      d.cause = .naming (.undeclaredVariable "b") ∧
      ∃ head rest : List Char, head.length = 6 ∧ head ++ rest = "PRINT b".toList ∧
        Shows (.ofString "p.tt" "LET a = 1\nPRINT b") ⟨"p.tt", 2, 7⟩ head rest d.cause ∧
        d.message.toList.splitOn '\n' =
          ["p.tt:2:7: error: referencing variable before assignment: 'b'".toList,
            "    PRINT b".toList, "          ^".toList,
            "hint: assign it with LET or read it with INPUT first".toList] := by
  have hfault : compile "p.tt" "LET a = 1\nPRINT b" = .error
      ⟨.naming (.undeclaredVariable "b"), some ⟨"p.tt", 2, 7⟩, some "PRINT b"⟩ := by cbv
  have hfile : OneLine "p.tt" := by decide
  obtain ⟨row, head, rest, -, hplace, hline, hshows, hmessage⟩ := compile_points hfile hfault
  have hplace := Option.some.inj hplace
  have hlength : head.length = 6 := by
    have hcolumn := congrArg Location.column hplace
    simp only at hcolumn
    omega
  have hcut : head ++ rest = "PRINT b".toList := by
    rw [Option.some.inj hline, String.toList_ofList]
  refine ⟨_, hfile, hfault, rfl, head, rest, hlength, hcut, ?_, ?_⟩
  · rw [hplace]
    exact hshows
  · rw [hmessage, hcut, hlength]
    decide

end PocketBasic

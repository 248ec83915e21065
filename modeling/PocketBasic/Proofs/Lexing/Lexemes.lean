import PocketBasic.Proofs.Lexing.Spelling

/-!
# The lexical grammar

What a lexeme is read as depends on the lexeme and on one character behind it.
`Lexeme.ReadAs` lists the cases: one rule for every class of tokens, and one for each of
the five ways in which reading can fail.  A rule for a token says how the lexeme is spelled
and which character may not stand behind it, so that no longer lexeme could have been read.
A rule for a fault says which characters are taken all the same, and why reading stopped
behind them.

The rules are said without `Lexeme.read`, and they are the whole of it:

* wherever a lexeme begins, one of the rules applies (`Lexeme.exists_readAs`);
* what a rule says is what is read (`Lexeme.read_of_readAs`).

No lexeme crosses the end of a line, and only a line end looks beyond it
(`Lexeme.ReadAs.eq_newline_or`).
-/

namespace PocketBasic
namespace Lexeme

/-! ## The character behind a lexeme -/

/-- No character that passes a test stands at the front of a text. -/
def NoneAhead (p : Char → Bool) (behind : List Char) : Prop := ∀ c ∈ behind.head?, p c = false

theorem noneAhead_nil (p : Char → Bool) : NoneAhead p [] := by
  rintro c ⟨⟩

theorem noneAhead_cons {p : Char → Bool} {c : Char} {behind : List Char} :
    NoneAhead p (c :: behind) ↔ p c = false := by
  simp [NoneAhead]

variable {p : Char → Bool} {run behind : List Char}

/-- A run of characters that pass a test ends where the first one does not. -/
theorem takeWhile_run (hrun : ∀ c ∈ run, p c) (h : NoneAhead p behind) :
    (run ++ behind).takeWhile p = run := by
  rw [List.takeWhile_append_of_pos hrun]
  cases behind with
  | nil => exact List.append_nil run
  | cons c behind =>
    rw [List.takeWhile_cons_of_neg (by simp [noneAhead_cons.mp h]), List.append_nil]

theorem dropWhile_run (hrun : ∀ c ∈ run, p c) (h : NoneAhead p behind) :
    (run ++ behind).dropWhile p = behind := by
  rw [List.dropWhile_append_of_pos hrun]
  cases behind with
  | nil => rfl
  | cons c behind => rw [List.dropWhile_cons_of_neg (by simp [noneAhead_cons.mp h])]

/-- Every text begins with such a run. -/
theorem exists_run (p : Char → Bool) (text : List Char) :
    ∃ run behind, text = run ++ behind ∧ (∀ c ∈ run, p c) ∧ NoneAhead p behind := by
  refine ⟨_, _, List.takeWhile_append_dropWhile.symm,
    fun c hc => List.mem_takeWhile_imp (p := p) hc, ?_⟩
  intro c hc
  have hnot := List.head?_dropWhile_not p text
  rw [Option.mem_def.mp hc] at hnot
  exact hnot

/-! ## The rules -/

/-- The characters that may not stand in a string. -/
def unquotable : List Char := ['"', '\n', '\r', '\t', '\\', '%']

/-- The characters, letters and digits apart, that begin a lexeme or stand before one. -/
def starters : List Char :=
  ['\n', '"', '!', '=', '<', '>', '+', '-', '*', '/', '#', ' ', '\t', '\r']

/-- The operators that would be others with an equals sign behind them. -/
def extensible : List Operator := [.assign, .less, .greater]

/-- A lexeme that stands before a text is read as a token, given by its kind and its text, or
as a fault. -/
inductive ReadAs : List Char → List Char → Except LexicalFault (Kind × String) → Prop where
  | newline (behind : List Char) : ReadAs ['\n'] behind (.ok (.newline, "\n"))
  | identifier {word behind : List Char} (h : IsWord word)
    (hkeyword : ∀ k : Keyword, k.text ≠ String.ofList word)
    (hbehind : NoneAhead Char.isAlphanum behind) :
    ReadAs word behind (.ok (.identifier, String.ofList word))
  | keyword (k : Keyword) {behind : List Char} (hbehind : NoneAhead Char.isAlphanum behind) :
    ReadAs k.text.toList behind (.ok (.keyword k, k.text))
  | integer {digits behind : List Char} (h : IsDigits digits)
    (hbehind : NoneAhead Char.isDigit behind) (hpoint : NoneAhead (· = '.') behind) :
    ReadAs digits behind (.ok (.number, String.ofList digits))
  | fraction {digits decimals behind : List Char} (h : IsDigits digits) (h' : IsDigits decimals)
    (hbehind : NoneAhead Char.isDigit behind) :
    ReadAs (digits ++ '.' :: decimals) behind
      (.ok (.number, String.ofList (digits ++ '.' :: decimals)))
  | string {body behind : List Char} (h : ∀ c ∈ body, c ∉ unquotable) :
    ReadAs ('"' :: (body ++ ['"'])) behind (.ok (.string, String.ofList body))
  | operator (o : Operator) {behind : List Char}
    (hbehind : o ∈ extensible → NoneAhead (· = '=') behind) :
    ReadAs o.text.toList behind (.ok (.operator o, o.text))
  /-- A character that begins nothing is taken by itself. -/
  | invalidCharacter {c : Char} {behind : List Char} (h : c.isAlphanum = false)
    (h' : c ∉ starters) : ReadAs [c] behind (.error (.invalidCharacter c))
  /-- A `!` without its `=` is taken by itself. -/
  | malformedOperator {behind : List Char} (h : NoneAhead (· = '=') behind) :
    ReadAs ['!'] behind
      (.error (.malformedOperator "!=" (String.ofList ('!' :: behind.take 1))))
  /-- A number without decimals is taken with its point. -/
  | malformedNumber {digits behind : List Char} (h : IsDigits digits)
    (h' : NoneAhead Char.isDigit behind) :
    ReadAs (digits ++ ['.']) behind
      (.error (.malformedNumber ((behind.head?.map Char.toString).getD "end of input")))
  /-- A string that its line ends is taken up to the line end. -/
  | unterminatedString {body behind : List Char} (h : ∀ c ∈ body, c ∉ unquotable)
    (h' : NoneAhead (· ≠ '\n') behind) :
    ReadAs ('"' :: body) behind (.error .unterminatedString)
  /-- A string with a character that may not stand in it is taken up to that character. -/
  | illegalInString {body : List Char} {c : Char} {behind : List Char}
    (h : ∀ c ∈ body, c ∉ unquotable) (hc : c ∈ unquotable) (hquote : c ≠ '"') (hend : c ≠ '\n') :
    ReadAs ('"' :: body) (c :: behind) (.error (.illegalInString c.toString))

/-! ## What a rule says is read -/

theorem isBlank_iff {c : Char} : isBlank c = true ↔ c = ' ' ∨ c = '\t' ∨ c = '\r' := by
  simp [isBlank, or_assoc]

theorem isStringChar_iff {c : Char} : isStringChar c = true ↔ c ∉ unquotable := by
  simp [isStringChar, unquotable, and_assoc]

theorem kindOfWord_of_ne {word : String} (h : ∀ k : Keyword, k.text ≠ word) :
    kindOfWord word = .identifier := by
  have hnone : Keyword.ofText? word = none :=
    List.find?_eq_none.mpr fun k _ => by simpa using h k
  rw [kindOfWord, hnone]

theorem kindOfWord_text (k : Keyword) : kindOfWord k.text = .keyword k := by
  cases k <;> rfl

theorem isWord_text (k : Keyword) : IsWord k.text.toList := by
  cases k
  all_goals exact ⟨_, _, rfl, rfl, List.all_eq_true.mp rfl⟩

theorem read_of_isAlpha {c : Char} (h : c.isAlpha) (rest : List Char) :
    read c rest = readWord (c :: rest) := by
  have hne : c ≠ '\n' := by
    rintro rfl
    cases h
  rw [read, if_neg hne, if_pos h]

theorem read_of_isDigit {c : Char} (h : c.isDigit) (rest : List Char) :
    read c rest = readNumber (c :: rest) := by
  have hne : c ≠ '\n' := by
    rintro rfl
    cases h
  rw [read, if_neg hne, if_neg (by simp [isAlpha_eq_false_of_isDigit h]), if_pos h]

/-- Where neither a letter, a digit, a line end nor a quote stands, an operator is read. -/
theorem read_of_not_isAlphanum {c : Char} (h : c.isAlphanum = false) (hend : c ≠ '\n')
    (hquote : c ≠ '"') (rest : List Char) : read c rest = readOperator c rest := by
  rw [Char.isAlphanum, Bool.or_eq_false_iff] at h
  rw [read, if_neg hend, if_neg (by simp [h.1]), if_neg (by simp [h.2]), if_neg hquote]

theorem readWord_eq {word behind : List Char} (h : IsWord word)
    (hbehind : NoneAhead Char.isAlphanum behind) :
    readWord (word ++ behind) =
      ⟨word.length, .ok (kindOfWord (String.ofList word), String.ofList word)⟩ := by
  obtain ⟨c, rest, rfl, hc, hrest⟩ := h
  have hrun : ∀ d ∈ c :: rest, d.isAlphanum := by
    intro d hd
    rcases List.mem_cons.mp hd with rfl | hd
    · simp [Char.isAlphanum, hc]
    · exact hrest d hd
  rw [readWord, takeWhile_run hrun hbehind]

theorem readNumber_integer {digits behind : List Char} (h : IsDigits digits)
    (hbehind : NoneAhead Char.isDigit behind) (hpoint : NoneAhead (· = '.') behind) :
    readNumber (digits ++ behind) =
      ⟨digits.length, .ok (.number, String.ofList digits)⟩ := by
  rw [readNumber, takeWhile_run h.2 hbehind, dropWhile_run h.2 hbehind]
  cases behind with
  | nil => rfl
  | cons c behind =>
    split
    · rename_i heq
      obtain ⟨rfl, rfl⟩ := List.cons.inj heq
      cases noneAhead_cons.mp hpoint
    · rfl

theorem readNumber_fraction {digits decimals behind : List Char} (h : IsDigits digits)
    (h' : IsDigits decimals) (hbehind : NoneAhead Char.isDigit behind) :
    readNumber (digits ++ '.' :: decimals ++ behind) =
      ⟨(digits ++ '.' :: decimals).length,
        .ok (.number, String.ofList (digits ++ '.' :: decimals))⟩ := by
  have hpoint : NoneAhead Char.isDigit ('.' :: decimals ++ behind) := noneAhead_cons.mpr rfl
  rw [List.append_assoc, readNumber, takeWhile_run h.2 hpoint, dropWhile_run h.2 hpoint]
  simp only [List.cons_append, takeWhile_run h'.2 hbehind, if_neg h'.1, List.length_append,
    List.length_cons]
  congr 1
  omega

theorem readNumber_malformed {digits behind : List Char} (h : IsDigits digits)
    (h' : NoneAhead Char.isDigit behind) :
    readNumber (digits ++ ['.'] ++ behind) = ⟨(digits ++ ['.']).length,
      .error (.malformedNumber ((behind.head?.map Char.toString).getD "end of input"))⟩ := by
  have hpoint : NoneAhead Char.isDigit ('.' :: behind) := noneAhead_cons.mpr rfl
  have hnone : behind.takeWhile Char.isDigit = [] := by
    simpa using takeWhile_run (List.forall_mem_nil _) h'
  rw [List.append_assoc, List.singleton_append, readNumber, takeWhile_run h.2 hpoint,
    dropWhile_run h.2 hpoint]
  simp only [hnone, if_true, List.length_append, List.length_singleton]

theorem isStringChar_of_forall {body : List Char} (h : ∀ c ∈ body, c ∉ unquotable) :
    ∀ c ∈ body, isStringChar c := fun c hc => isStringChar_iff.mpr (h c hc)

theorem noneAhead_isStringChar {c : Char} (h : c ∈ unquotable) (behind : List Char) :
    NoneAhead isStringChar (c :: behind) := by
  refine noneAhead_cons.mpr (Bool.eq_false_iff.mpr fun hc => ?_)
  exact isStringChar_iff.mp hc h

theorem readString_quoted {body behind : List Char} (h : ∀ c ∈ body, c ∉ unquotable) :
    readString (body ++ '"' :: behind) =
      ⟨body.length + 2, .ok (.string, String.ofList body)⟩ := by
  have hquote := noneAhead_isStringChar (c := '"') (by decide) behind
  rw [readString, takeWhile_run (isStringChar_of_forall h) hquote,
    dropWhile_run (isStringChar_of_forall h) hquote]
  rfl

theorem readString_unterminated {body behind : List Char} (h : ∀ c ∈ body, c ∉ unquotable)
    (h' : NoneAhead (· ≠ '\n') behind) :
    readString (body ++ behind) = ⟨body.length + 1, .error .unterminatedString⟩ := by
  have hstop : NoneAhead isStringChar behind := by
    intro c hc
    have hend : c = '\n' := by simpa using h' c hc
    rw [hend]
    rfl
  rw [readString, takeWhile_run (isStringChar_of_forall h) hstop,
    dropWhile_run (isStringChar_of_forall h) hstop]
  cases behind with
  | nil => rfl
  | cons c behind =>
    obtain rfl : c = '\n' := by simpa using noneAhead_cons.mp h'
    rfl

theorem readString_illegal {body : List Char} {c : Char} (h : ∀ c ∈ body, c ∉ unquotable)
    (hc : c ∈ unquotable) (hquote : c ≠ '"') (hend : c ≠ '\n') (behind : List Char) :
    readString (body ++ c :: behind) =
      ⟨body.length + 1, .error (.illegalInString c.toString)⟩ := by
  have hstop := noneAhead_isStringChar hc behind
  rw [readString, takeWhile_run (isStringChar_of_forall h) hstop,
    dropWhile_run (isStringChar_of_forall h) hstop]
  split
  · rename_i heq
    exact absurd (List.cons.inj heq).1 hquote
  · rename_i heq
    cases heq
  · rename_i heq
    exact absurd (List.cons.inj heq).1 hend
  · rename_i heq
    obtain ⟨rfl, -⟩ := List.cons.inj heq
    rfl

/-- An operator is found at the front of a text, if it cannot be extended there. -/
theorem operatorAt?_text (o : Operator) {behind : List Char}
    (h : o ∈ extensible → NoneAhead (· = '=') behind) :
    operatorAt? (o.text.toList ++ behind) = some o := by
  have hplain : o ∈ extensible → behind.head? ≠ some '=' := by
    intro ho hhead
    cases h ho '=' hhead
  cases behind with
  | nil => cases o <;> rfl
  | cons d behind =>
    by_cases hd : d = '='
    · subst hd
      cases o with
      | assign | less | greater => exact absurd rfl (hplain (by decide))
      | _ => rfl
    · cases o
      all_goals simp [Operator.text, operatorAt?, hd]

theorem operatorAt?_of_not_mem_starters {c : Char} (h : c ∉ starters) (rest : List Char) :
    operatorAt? (c :: rest) = none := by
  simp only [starters, List.mem_cons, List.not_mem_nil, or_false, not_or] at h
  unfold operatorAt?
  split
  all_goals simp_all

theorem operatorAt?_bang {behind : List Char} (h : NoneAhead (· = '=') behind) :
    operatorAt? ('!' :: behind) = none := by
  cases behind with
  | nil => rfl
  | cons d behind =>
    have hd : d ≠ '=' := by simpa using noneAhead_cons.mp h
    simp [operatorAt?, hd]

theorem exists_text_eq_cons (o : Operator) :
    ∃ c rest, o.text.toList = c :: rest ∧ c.isAlphanum = false ∧ c ≠ '\n' ∧ c ≠ '"' := by
  cases o
  all_goals exact ⟨_, _, rfl, by decide⟩

/-- What a rule says is read. -/
theorem read_of_readAs {lexeme behind : List Char} {outcome : Except LexicalFault (Kind × String)}
    (h : ReadAs lexeme behind outcome) :
    ∃ c rest, lexeme ++ behind = c :: rest ∧ read c rest = ⟨lexeme.length, outcome⟩ := by
  cases h with
  | newline => exact ⟨_, _, rfl, rfl⟩
  | @identifier word _ h hkeyword hbehind =>
    have hread := readWord_eq h hbehind
    obtain ⟨c, rest, rfl, hc, -⟩ := h
    refine ⟨c, rest ++ behind, rfl, ?_⟩
    rw [read_of_isAlpha hc, ← List.cons_append, hread, kindOfWord_of_ne hkeyword]
  | keyword k hbehind =>
    have hread := readWord_eq (isWord_text k) hbehind
    rw [String.ofList_toList, kindOfWord_text] at hread
    obtain ⟨c, rest, hword, hc, -⟩ := isWord_text k
    rw [hword] at hread ⊢
    exact ⟨c, rest ++ behind, rfl, (read_of_isAlpha hc _).trans hread⟩
  | integer h hbehind hpoint =>
    have hread := readNumber_integer h hbehind hpoint
    obtain ⟨c, rest, rfl⟩ := List.exists_cons_of_ne_nil h.1
    exact ⟨c, rest ++ behind, rfl, (read_of_isDigit (h.2 c List.mem_cons_self) _).trans hread⟩
  | fraction h h' hbehind =>
    have hread := readNumber_fraction h h' hbehind
    obtain ⟨c, rest, rfl⟩ := List.exists_cons_of_ne_nil h.1
    exact ⟨c, _, rfl, (read_of_isDigit (h.2 c List.mem_cons_self) _).trans hread⟩
  | malformedNumber h hbehind =>
    have hread := readNumber_malformed h hbehind
    obtain ⟨c, rest, rfl⟩ := List.exists_cons_of_ne_nil h.1
    exact ⟨c, _, rfl, (read_of_isDigit (h.2 c List.mem_cons_self) _).trans hread⟩
  | @string body _ h =>
    refine ⟨'"', body ++ '"' :: behind, by simp, ?_⟩
    rw [List.length_cons, List.length_append]
    exact readString_quoted h
  | unterminatedString h hbehind => exact ⟨_, _, rfl, readString_unterminated h hbehind⟩
  | illegalInString h hc hquote hend => exact ⟨_, _, rfl, readString_illegal h hc hquote hend _⟩
  | operator o hbehind =>
    have hoperator := operatorAt?_text o hbehind
    obtain ⟨c, rest, htext, hc, hend, hquote⟩ := exists_text_eq_cons o
    rw [htext] at hoperator ⊢
    refine ⟨c, rest ++ behind, rfl, ?_⟩
    rw [read_of_not_isAlphanum hc hend hquote, readOperator, ← List.cons_append, hoperator]
    exact congrArg (Lexeme.mk · _) (by rw [← String.length_toList, htext])
  | @invalidCharacter c _ hc hstarters =>
    have hne : ∀ d ∈ starters, c ≠ d := fun d hd hcd => hstarters (hcd ▸ hd)
    refine ⟨c, behind, rfl, ?_⟩
    rw [read_of_not_isAlphanum hc (hne _ (by decide)) (hne _ (by decide)), readOperator,
      operatorAt?_of_not_mem_starters hstarters]
    exact if_neg (hne _ (by decide))
  | malformedOperator h =>
    refine ⟨'!', behind, rfl, ?_⟩
    rw [read_of_not_isAlphanum (by decide) (by decide) (by decide), readOperator,
      operatorAt?_bang h]
    rfl

/-! ## Every lexeme has a rule -/

theorem exists_readAs_word {c : Char} (hc : c.isAlpha) (rest : List Char) :
    ∃ lexeme behind outcome, c :: rest = lexeme ++ behind ∧ ReadAs lexeme behind outcome := by
  obtain ⟨run, behind, rfl, hrun, hbehind⟩ := exists_run Char.isAlphanum rest
  have hword : IsWord (c :: run) := ⟨c, run, rfl, hc, hrun⟩
  by_cases hkeyword : ∃ k : Keyword, k.text = String.ofList (c :: run)
  · obtain ⟨k, hk⟩ := hkeyword
    refine ⟨k.text.toList, behind, _, ?_, .keyword k hbehind⟩
    rw [hk, String.toList_ofList, List.cons_append]
  · exact ⟨c :: run, behind, _, rfl, .identifier hword (not_exists.mp hkeyword) hbehind⟩

theorem exists_readAs_number {c : Char} (hc : c.isDigit) (rest : List Char) :
    ∃ lexeme behind outcome, c :: rest = lexeme ++ behind ∧ ReadAs lexeme behind outcome := by
  obtain ⟨run, behind, rfl, hrun, hbehind⟩ := exists_run Char.isDigit rest
  have hdigits : IsDigits (c :: run) := ⟨List.cons_ne_nil _ _, List.forall_mem_cons.mpr ⟨hc, hrun⟩⟩
  by_cases hpoint : behind.head? = some '.'
  · obtain ⟨later, rfl⟩ : ∃ later, behind = '.' :: later := by
      cases behind with
      | nil => cases hpoint
      | cons d later => exact ⟨later, by rw [Option.some.inj hpoint]⟩
    obtain ⟨decimals, behind, rfl, hdecimals, hstop⟩ := exists_run Char.isDigit later
    by_cases hnil : decimals = []
    · subst hnil
      refine ⟨c :: run ++ ['.'], behind, _, ?_, .malformedNumber hdigits hstop⟩
      rw [List.append_assoc, List.singleton_append, List.nil_append, List.cons_append]
    · refine ⟨c :: run ++ '.' :: decimals, behind, _, ?_, .fraction hdigits ⟨hnil, hdecimals⟩ hstop⟩
      rw [List.append_assoc, List.cons_append, List.cons_append]
  · refine ⟨c :: run, behind, _, rfl, .integer hdigits hbehind ?_⟩
    intro d hd
    refine decide_eq_false fun hdot => hpoint ?_
    rw [Option.mem_def.mp hd, hdot]

theorem exists_readAs_string (text : List Char) :
    ∃ lexeme behind outcome, '"' :: text = lexeme ++ behind ∧ ReadAs lexeme behind outcome := by
  obtain ⟨body, behind, rfl, hbody, hstop⟩ := exists_run isStringChar text
  have hquotable : ∀ c ∈ body, c ∉ unquotable := fun c hc => isStringChar_iff.mp (hbody c hc)
  by_cases hend : NoneAhead (· ≠ '\n') behind
  · exact ⟨'"' :: body, behind, _, rfl, .unterminatedString hquotable hend⟩
  · cases behind with
    | nil => exact absurd (noneAhead_nil _) hend
    | cons c behind =>
      have hne : c ≠ '\n' := by simpa [noneAhead_cons] using hend
      have hc : c ∈ unquotable := by
        by_contra hnot
        rw [noneAhead_cons, isStringChar_iff.mpr hnot] at hstop
        cases hstop
      by_cases hquote : c = '"'
      · subst hquote
        exact ⟨'"' :: (body ++ ['"']), behind, _, by simp, .string hquotable⟩
      · exact ⟨'"' :: body, c :: behind, _, rfl, .illegalInString hquotable hc hquote hne⟩

/-- Whether an equals sign stands ahead. -/
theorem head_eq_or_noneAhead (text : List Char) :
    (∃ behind, text = '=' :: behind) ∨ NoneAhead (· = '=') text := by
  cases text with
  | nil => exact .inr (noneAhead_nil _)
  | cons c behind =>
    by_cases hc : c = '='
    · exact .inl ⟨behind, by rw [hc]⟩
    · exact .inr (noneAhead_cons.mpr (decide_eq_false hc))

/-- Of an operator and the one that it begins, the longer one is read if it is there. -/
theorem exists_readAs_operator (o long : Operator)
    (hlong : long.text.toList = o.text.toList ++ ['=']) (hends : long ∉ extensible)
    (text : List Char) :
    ∃ lexeme behind outcome, o.text.toList ++ text = lexeme ++ behind ∧
      ReadAs lexeme behind outcome := by
  rcases head_eq_or_noneAhead text with ⟨behind, rfl⟩ | hnone
  · refine ⟨long.text.toList, behind, _, ?_, .operator long fun h => absurd h hends⟩
    rw [hlong, List.append_assoc, List.singleton_append]
  · exact ⟨o.text.toList, text, _, rfl, .operator o fun _ => hnone⟩

theorem exists_readAs_symbol {c : Char} (hc : c.isAlphanum = false) (hblank : isBlank c = false)
    (hcomment : c ≠ '#') (hend : c ≠ '\n') (hquote : c ≠ '"') (text : List Char) :
    ∃ lexeme behind outcome, c :: text = lexeme ++ behind ∧ ReadAs lexeme behind outcome := by
  by_cases hstarter : c ∈ starters
  · have hcases : c = '!' ∨ c = '=' ∨ c = '<' ∨ c = '>' ∨ c = '+' ∨ c = '-' ∨ c = '*' ∨ c = '/' := by
      simp only [starters, List.mem_cons, List.not_mem_nil, or_false] at hstarter
      have hnone : ¬ (c = ' ' ∨ c = '\t' ∨ c = '\r') := by
        rw [← isBlank_iff, hblank]
        exact Bool.false_ne_true
      grind
    rcases hcases with rfl | rfl | rfl | rfl | rfl | rfl | rfl | rfl
    · rcases head_eq_or_noneAhead text with ⟨behind, rfl⟩ | hnone
      · exact ⟨['!', '='], behind, _, rfl, .operator .notEqual fun h => absurd h (by decide)⟩
      · exact ⟨['!'], text, _, rfl, .malformedOperator hnone⟩
    · exact exists_readAs_operator .assign .equal rfl (by decide) text
    · exact exists_readAs_operator .less .lessEqual rfl (by decide) text
    · exact exists_readAs_operator .greater .greaterEqual rfl (by decide) text
    · exact ⟨['+'], text, _, rfl, .operator .plus fun h => absurd h (by decide)⟩
    · exact ⟨['-'], text, _, rfl, .operator .minus fun h => absurd h (by decide)⟩
    · exact ⟨['*'], text, _, rfl, .operator .times fun h => absurd h (by decide)⟩
    · exact ⟨['/'], text, _, rfl, .operator .divide fun h => absurd h (by decide)⟩
  · exact ⟨[c], text, _, rfl, .invalidCharacter hc hstarter⟩

/-- Wherever neither a blank nor a comment stands, a lexeme begins to which one of the rules
applies. -/
theorem exists_readAs {c : Char} (hblank : isBlank c = false) (hcomment : c ≠ '#')
    (rest : List Char) :
    ∃ lexeme behind outcome, c :: rest = lexeme ++ behind ∧ ReadAs lexeme behind outcome := by
  by_cases hend : c = '\n'
  · subst hend
    exact ⟨['\n'], rest, _, rfl, .newline rest⟩
  by_cases hquote : c = '"'
  · subst hquote
    exact exists_readAs_string rest
  cases hletter : c.isAlpha with
  | true => exact exists_readAs_word hletter rest
  | false =>
    cases hdigit : c.isDigit with
    | true => exact exists_readAs_number hdigit rest
    | false =>
      have hsymbol : c.isAlphanum = false := by rw [Char.isAlphanum, hletter, hdigit]; rfl
      exact exists_readAs_symbol hsymbol hblank hcomment hend hquote rest

/-! ## What all lexemes have in common -/

variable {lexeme behind : List Char} {outcome : Except LexicalFault (Kind × String)}

/-- What a lexeme begins with is no layout. -/
theorem ReadAs.exists_eq_cons (h : ReadAs lexeme behind outcome) :
    ∃ c rest, lexeme = c :: rest ∧ isBlank c = false ∧ c ≠ '#' := by
  have hletter : ∀ c : Char, c.isAlphanum → isBlank c = false ∧ c ≠ '#' := by
    intro c hc
    constructor
    · by_contra hblank
      rw [Bool.not_eq_false, isBlank_iff] at hblank
      rcases hblank with rfl | rfl | rfl
      all_goals cases hc
    · rintro rfl
      cases hc
  have hdigit : ∀ {c : Char}, c.isDigit → isBlank c = false ∧ c ≠ '#' := fun hc =>
    hletter _ (by simp [Char.isAlphanum, hc])
  have hword : ∀ {word}, IsWord word → ∃ c rest, word = c :: rest ∧ isBlank c = false ∧ c ≠ '#' := by
    rintro _ ⟨c, rest, rfl, hc, -⟩
    exact ⟨c, rest, rfl, hletter c (by simp [Char.isAlphanum, hc])⟩
  cases h with
  | newline | malformedOperator => exact ⟨_, _, rfl, by decide⟩
  | string | unterminatedString | illegalInString => exact ⟨_, _, rfl, by decide⟩
  | identifier h => exact hword h
  | keyword k => exact hword (isWord_text k)
  | integer h | fraction h | malformedNumber h =>
    obtain ⟨c, rest, rfl⟩ := List.exists_cons_of_ne_nil h.1
    exact ⟨c, _, rfl, hdigit (h.2 c List.mem_cons_self)⟩
  | operator o =>
    cases o
    all_goals exact ⟨_, _, rfl, by decide⟩
  | invalidCharacter _ hstarters =>
    refine ⟨_, _, rfl, ?_, fun hc => hstarters (by rw [hc]; decide)⟩
    by_contra hblank
    rw [Bool.not_eq_false, isBlank_iff] at hblank
    rcases hblank with rfl | rfl | rfl
    all_goals exact hstarters (by decide)

/-- No lexeme but a line end has a line end in it. -/
theorem ReadAs.eq_newline_or (h : ReadAs lexeme behind outcome) :
    lexeme = ['\n'] ∧ outcome = .ok (.newline, "\n") ∨ '\n' ∉ lexeme := by
  have hword : ∀ {word}, IsWord word → '\n' ∉ word := by
    rintro _ ⟨c, rest, rfl, hc, hrest⟩ hmem
    rcases List.mem_cons.mp hmem with rfl | hmem
    · cases hc
    · cases hrest _ hmem
  have hdigits : ∀ {digits}, IsDigits digits → '\n' ∉ digits := fun h hmem => by
    cases h.2 _ hmem
  have hbody : ∀ {body : List Char}, (∀ c ∈ body, c ∉ unquotable) → '\n' ∉ body :=
    fun h hmem => h _ hmem (by decide)
  cases h with
  | newline => exact .inl ⟨rfl, rfl⟩
  | identifier h => exact .inr (hword h)
  | keyword k => exact .inr (hword (isWord_text k))
  | integer h => exact .inr (hdigits h)
  | fraction h h' =>
    refine .inr fun hmem => ?_
    rcases List.mem_append.mp hmem with hmem | hmem
    · exact hdigits h hmem
    · rcases List.mem_cons.mp hmem with hmem | hmem
      · cases hmem
      · exact hdigits h' hmem
  | malformedNumber h => exact .inr (by simpa using hdigits h)
  | string h => exact .inr (by simpa using hbody h)
  | unterminatedString h | illegalInString h => exact .inr (by simpa using hbody h)
  | operator o =>
    refine .inr ?_
    cases o
    all_goals decide
  | invalidCharacter _ hstarters =>
    refine .inr fun hmem => hstarters ?_
    rw [← List.mem_singleton.mp hmem]
    decide
  | malformedOperator => exact .inr (by decide)

/-- What a lexeme is read as does not change with what stands behind the character that was
looked at. -/
theorem ReadAs.append (h : ReadAs lexeme behind outcome) (hbehind : lexeme = ['\n'] ∨ behind ≠ [])
    (more : List Char) : ReadAs lexeme (behind ++ more) outcome := by
  cases behind with
  | nil =>
    rcases h.eq_newline_or with ⟨rfl, rfl⟩ | hmem
    · exact .newline _
    · rcases hbehind with rfl | hne
      · exact absurd List.mem_cons_self hmem
      · exact absurd rfl hne
  | cons c behind =>
    have hahead : ∀ {p : Char → Bool}, NoneAhead p (c :: behind) → NoneAhead p (c :: behind ++ more) :=
      fun h => noneAhead_cons.mpr (noneAhead_cons.mp h)
    cases h with
    | newline => exact .newline _
    | identifier h hkeyword hbehind => exact .identifier h hkeyword (hahead hbehind)
    | keyword k hbehind => exact .keyword k (hahead hbehind)
    | integer h hbehind hpoint => exact .integer h (hahead hbehind) (hahead hpoint)
    | fraction h h' hbehind => exact .fraction h h' (hahead hbehind)
    | string h => exact .string h
    | operator o hbehind => exact .operator o fun ho => hahead (hbehind ho)
    | invalidCharacter h h' => exact .invalidCharacter h h'
    | malformedOperator h => exact .malformedOperator (hahead h)
    | malformedNumber h h' => exact .malformedNumber h (hahead h')
    | unterminatedString h h' => exact .unterminatedString h (hahead h')
    | illegalInString h hc hquote hend => exact .illegalInString h hc hquote hend

end Lexeme
end PocketBasic

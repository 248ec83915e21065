import PocketBasic.Proofs.Decoding.Phrases

/-!
# Lines of C are read back

A translation has eleven kinds of lines.  A line is known by the word that it begins with and by
what stands behind that word, so it can be read back (`Line.ofText`).  No name makes one kind of
line look like another: what follows a name in a line is a colon, a blank with an equals sign, or
a semicolon, and `goto`, `float` and `return` are followed by a blank with a letter or a digit.

Main statements: a well-formed line is what its text is read as (`Line.ofText_text`), and its
text is on one line (`Line.oneLine_text`).  So a list of lines is told by the text of them all.
-/

namespace PocketBasic

/-- The lines of a translation, the two first ones apart. -/
inductive Line where
  | declaration (name : String)
  | printString (text : String)
  | printValue (value : String)
  | label (name : String)
  | jump (name : String)
  | assign (name value : String)
  | opening (b : Block) (test : String)
  | closing
  /-- The line that tries to read a number. -/
  | input (name : String)
  /-- The line that passes over what is no number. -/
  | skip
  /-- The line that ends the program. -/
  | finish
  deriving DecidableEq, Repr

namespace Line

/-- How a line is written. -/
def text : Line → String
  | declaration name => "float " ++ name ++ ";"
  | printString text => "printf(\"" ++ text ++ "\\n\");"
  | printValue value => "printf(\"%.2f\\n\", (float)(" ++ value ++ "));"
  | label name => name ++ ":"
  | jump name => "goto " ++ name ++ ";"
  | assign name value => name ++ " = " ++ value ++ ";"
  | opening b test => b.cWord ++ "(" ++ test ++ ")\x7b"
  | closing => "\x7d"
  | input name => "if(0 == scanf(\"%f\", &" ++ name ++ ")) \x7b"
  | skip => "scanf(\"%*s\");"
  | finish => "return 0;"

/-- The names in a line are words, its strings are those of the language, and its expressions
are plain. -/
def WellFormed : Line → Prop
  | declaration name | label name | jump name | input name => IsWord name.toList
  | printString text => ∀ c ∈ text.toList, c ∉ Lexeme.unquotable
  | printValue value | opening _ value => IsPlain value
  | assign name value => IsWord name.toList ∧ IsPlain value
  | closing | skip | finish => True

/-! ## Reading back -/

/-- What stands between two texts. -/
def inside (before behind : String) (cs : List Char) : String :=
  String.ofList ((cs.drop before.toList.length).rdrop behind.toList.length)

theorem inside_append (before behind value : String) :
    inside before behind (before.toList ++ (value.toList ++ behind.toList)) = value := by
  rw [inside, List.drop_left, List.rdrop, List.length_append, Nat.add_sub_cancel, List.take_left,
    String.ofList_toList]

/-- The line that begins with a word and goes on with other text. -/
def ofParts (word : String) : List Char → Line
  | ':' :: _ => label word
  | ' ' :: '=' :: rest => assign word (inside " " ";" rest)
  | ' ' :: '0' :: _ => finish
  | ' ' :: name =>
    if word = "goto" then jump (inside "" ";" name) else declaration (inside "" ";" name)
  | '(' :: '"' :: '%' :: '.' :: rest => printValue (inside "2f\\n\", (float)(" "));" rest)
  | '(' :: '"' :: '%' :: _ => skip
  | '(' :: '"' :: text => printString (inside "" "\\n\");" text)
  | '(' :: '0' :: ' ' :: rest => input (inside "== scanf(\"%f\", &" ")) \x7b" rest)
  | '(' :: test =>
    opening (if word = "if" then .conditional else .loop) (inside "" ")\x7b" test)
  | _ => closing

/-- The line that is written as a text. -/
def ofText (cs : List Char) : Line :=
  ofParts (String.ofList (cs.takeWhile Char.isAlphanum)) (cs.dropWhile Char.isAlphanum)

theorem ofText_append {word : String} (hword : word.toList.all Char.isAlphanum) (c : Char)
    (hc : c.isAlphanum = false) (rest : List Char) :
    ofText (word.toList ++ c :: rest) = ofParts word (c :: rest) := by
  have hrest : Lexeme.NoneAhead Char.isAlphanum (c :: rest) := Lexeme.noneAhead_cons.mpr hc
  rw [ofText, Lexeme.takeWhile_run (List.all_eq_true.mp hword) hrest,
    Lexeme.dropWhile_run (List.all_eq_true.mp hword) hrest, String.ofList_toList]

theorem all_isAlphanum_of_isWord {word : String} (h : IsWord word.toList) :
    word.toList.all Char.isAlphanum := by
  obtain ⟨c, rest, hword, hc, hrest⟩ := h
  rw [hword, List.all_cons, List.all_eq_true.mpr hrest, Char.isAlphanum, hc]
  rfl

/-- Behind `goto` and `float` stands a name, which is not what stands behind other words. -/
theorem ofParts_name (word : String) {name : String} (h : IsWord name.toList) :
    ofParts word (' ' :: (name.toList ++ [';'])) =
      if word = "goto" then jump name else declaration name := by
  have hinside : inside "" ";" (name.toList ++ [';']) = name := inside_append "" ";" name
  obtain ⟨c, rest, hname, hc, -⟩ := h
  rw [hname] at hinside ⊢
  rw [ofParts, hinside]
  · rintro behind ⟨⟩
    cases hc
  · rintro behind ⟨⟩
    cases hc

/-- A string is not taken for a format. -/
theorem ofParts_string (word : String) {text : String} (h : '%' ∉ text.toList) :
    ofParts word ('(' :: '"' :: (text.toList ++ "\\n\");".toList)) = printString text := by
  have hinside : inside "" "\\n\");" (text.toList ++ "\\n\");".toList) = text :=
    inside_append "" "\\n\");" text
  have hfirst : ∀ behind, text.toList ++ "\\n\");".toList ≠ '%' :: behind := by
    intro behind hcons
    cases htext : text.toList with
    | nil =>
      rw [htext] at hcons
      cases hcons
    | cons c rest =>
      rw [htext] at hcons h
      obtain ⟨rfl, -⟩ := List.cons.inj hcons
      exact h List.mem_cons_self
  rw [ofParts, hinside]
  · exact fun behind => hfirst ('.' :: behind)
  · exact hfirst

/-- A condition is no string, and no number behind which a blank stands. -/
theorem ofParts_test (word : String) {test : String} (h : IsPlain test) :
    ofParts word ('(' :: (test.toList ++ ")\x7b".toList)) =
      opening (if word = "if" then .conditional else .loop) test := by
  have hinside : inside "" ")\x7b" (test.toList ++ ")\x7b".toList) = test :=
    inside_append "" ")\x7b" test
  have hquote : ∀ behind, test.toList ++ ")\x7b".toList ≠ '"' :: behind := by
    intro behind hcons
    cases htest : test.toList with
    | nil =>
      rw [htest] at hcons
      cases hcons
    | cons c rest =>
      rw [htest] at hcons
      obtain ⟨rfl, -⟩ := List.cons.inj hcons
      exact (h '"' (htest ▸ List.mem_cons_self)).2.1 rfl
  have hblank : ∀ behind, test.toList ++ ")\x7b".toList ≠ '0' :: ' ' :: behind := by
    intro behind hcons
    match htest : test.toList with
    | [] =>
      rw [htest] at hcons
      cases hcons
    | [c] =>
      rw [htest] at hcons
      obtain ⟨-, hcons⟩ := List.cons.inj hcons
      cases hcons
    | c :: d :: rest =>
      rw [htest] at hcons
      obtain ⟨-, hcons⟩ := List.cons.inj hcons
      obtain ⟨rfl, -⟩ := List.cons.inj hcons
      exact (h ' ' (htest ▸ List.mem_cons_of_mem _ List.mem_cons_self)).1 rfl
  rw [ofParts, hinside]
  · exact fun behind => hquote ('%' :: '.' :: behind)
  · exact fun behind => hquote ('%' :: behind)
  · exact hquote
  · exact hblank

/-- A line is what its text is read as. -/
theorem ofText_text {line : Line} (h : line.WellFormed) : ofText line.text.toList = line := by
  cases line with
  | closing | skip | finish => decide
  | label name =>
    have htext : (label name).text.toList = name.toList ++ [':'] := String.toList_append
    rw [htext, ofText_append (all_isAlphanum_of_isWord h) ':' rfl]
    rfl
  | declaration name =>
    have htext : (declaration name).text.toList =
        "float".toList ++ ' ' :: (name.toList ++ [';']) := by
      show ("float " ++ name ++ ";").toList = _
      rw [String.toList_append, String.toList_append, List.append_assoc]
      rfl
    rw [htext, ofText_append rfl ' ' rfl, ofParts_name _ h]
    rfl
  | jump name =>
    have htext : (jump name).text.toList = "goto".toList ++ ' ' :: (name.toList ++ [';']) := by
      show ("goto " ++ name ++ ";").toList = _
      rw [String.toList_append, String.toList_append, List.append_assoc]
      rfl
    rw [htext, ofText_append rfl ' ' rfl, ofParts_name _ h]
    rfl
  | assign name value =>
    obtain ⟨hname, -⟩ := h
    have htext : (assign name value).text.toList =
        name.toList ++ ' ' :: '=' :: (" ".toList ++ (value.toList ++ ";".toList)) := by
      show (name ++ " = " ++ value ++ ";").toList = _
      rw [String.toList_append, String.toList_append, String.toList_append,
        List.append_assoc, List.append_assoc]
      rfl
    rw [htext, ofText_append (all_isAlphanum_of_isWord hname) ' ' rfl, ofParts, inside_append]
  | printString text =>
    have htext : (printString text).text.toList =
        "printf".toList ++ '(' :: '"' :: (text.toList ++ "\\n\");".toList) := by
      show ("printf(\"" ++ text ++ "\\n\");").toList = _
      rw [String.toList_append, String.toList_append, List.append_assoc]
      rfl
    rw [htext, ofText_append rfl '(' rfl, ofParts_string _ fun hc => h '%' hc (by decide)]
  | printValue value =>
    have htext : (printValue value).text.toList = "printf".toList ++
        '(' :: '"' :: '%' :: '.' ::
          ("2f\\n\", (float)(".toList ++ (value.toList ++ "));".toList)) := by
      show ("printf(\"%.2f\\n\", (float)(" ++ value ++ "));").toList = _
      rw [String.toList_append, String.toList_append, List.append_assoc]
      rfl
    rw [htext, ofText_append rfl '(' rfl, ofParts, inside_append]
  | opening b test =>
    have hword : b.cWord.toList.all Char.isAlphanum := by cases b <;> rfl
    have htext : (opening b test).text.toList =
        b.cWord.toList ++ '(' :: (test.toList ++ ")\x7b".toList) := by
      show (b.cWord ++ "(" ++ test ++ ")\x7b").toList = _
      rw [String.toList_append, String.toList_append, String.toList_append,
        List.append_assoc, List.append_assoc]
      rfl
    rw [htext, ofText_append hword '(' rfl, ofParts_test _ h]
    cases b <;> rfl
  | input name =>
    have htext : (input name).text.toList = "if".toList ++ '(' :: '0' :: ' ' ::
        ("== scanf(\"%f\", &".toList ++ (name.toList ++ ")) \x7b".toList)) := by
      show ("if(0 == scanf(\"%f\", &" ++ name ++ ")) \x7b").toList = _
      rw [String.toList_append, String.toList_append, List.append_assoc]
      rfl
    rw [htext, ofText_append rfl '(' rfl, ofParts, inside_append]

/-- The text of a line has no line end in it. -/
theorem oneLine_text {line : Line} (h : line.WellFormed) : OneLine line.text := by
  cases line with
  | closing | skip | finish => decide
  | label name => exact oneLine_append.mpr ⟨oneLine_of_isWord h, by decide⟩
  | declaration name | jump name | input name =>
    have hname : OneLine name := oneLine_of_isWord h
    unfold text
    simp only [oneLine_append]
    exact ⟨⟨by decide, hname⟩, by decide⟩
  | printString text =>
    have htext : OneLine text := fun hmem => h '\n' hmem (by decide)
    unfold Line.text
    simp only [oneLine_append]
    exact ⟨⟨by decide, htext⟩, by decide⟩
  | printValue value =>
    have hvalue : OneLine value := IsPlain.oneLine h
    unfold text
    simp only [oneLine_append]
    exact ⟨⟨by decide, hvalue⟩, by decide⟩
  | assign name value =>
    obtain ⟨hname, hvalue⟩ := h
    unfold text
    simp only [oneLine_append]
    exact ⟨⟨⟨oneLine_of_isWord hname, by decide⟩, hvalue.oneLine⟩, by decide⟩
  | opening b test =>
    have htest : OneLine test := IsPlain.oneLine h
    have hword : OneLine b.cWord := by
      cases b
      all_goals decide
    unfold text
    simp only [oneLine_append]
    exact ⟨⟨⟨hword, by decide⟩, htest⟩, by decide⟩

end Line
end PocketBasic

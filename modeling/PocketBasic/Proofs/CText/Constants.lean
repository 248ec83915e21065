import Mathlib.Data.Rat.Defs
import Mathlib.Data.Rat.Cast.CharZero
import PocketBasic.Proofs.Decoding.Closed
import PocketBasic.Proofs.TokenSeparation
import PocketBasic.Proofs.Translation.Kinds

/-!
# What C takes the numbers of a program for

A number is copied into the translation as it is written.  C finds it there again, since neither a
name nor an operator runs into it, but C has other rules for numbers: one without a point that
begins with a zero is octal.  Such a number has another value in C than in the program, or none at
all if a digit in it is not octal.  The value is the same only if all digits before the last one
are zeros and the last one is octal.

Main statement: the numbers that C finds in the translation of an accepted source are those of the
source in their order, and C takes a number for its value exactly if it is not one of those
(`constant?_eq_value_iff`).
-/

namespace PocketBasic

namespace CText

/-! ## Values -/

/-- The number that a digit stands for. -/
def digitOf (c : Char) : ℕ := c.toNat - '0'.toNat

/-- The number with some digits, the first one of which counts most. -/
def valueIn (base : ℕ) (digits : List Char) : ℕ :=
  digits.foldl (fun n c => base * n + digitOf c) 0

/-- The number with some decimal digits before its point and some behind it. -/
def decimal (whole fraction : List Char) : ℚ :=
  valueIn 10 whole + valueIn 10 fraction / 10 ^ fraction.length

/-- The value of a number of the language. -/
def literalValue (number : List Char) : ℚ :=
  decimal (number.takeWhile Char.isDigit) ((number.dropWhile Char.isDigit).drop 1)

/-! ## Constants of C -/

/-- The digits of octal numbers. -/
def isOctal (c : Char) : Bool := c.isDigit && digitOf c < 8

/-- The value of a constant of digits alone. -/
def integer? : List Char → Option ℕ
  | [] => none
  | '0' :: d :: digits =>
    if (d :: digits).all isOctal then some (valueIn 8 (d :: digits)) else none
  | digits => some (valueIn 10 digits)

/-- The value of a constant.  Hexadecimal constants, exponents and suffixes are left out. -/
def constant? (cs : List Char) : Option ℚ :=
  let whole := cs.takeWhile Char.isDigit
  match cs.dropWhile Char.isDigit with
  | [] => (integer? whole).map (Nat.cast : ℕ → ℚ)
  | '.' :: fraction =>
    if fraction.all Char.isDigit && !(whole ++ fraction).isEmpty then some (decimal whole fraction)
    else none
  | _ => none

/-- Numbers that C takes for octal ones, with another value or with none. -/
def IsMisread (number : List Char) : Prop :=
  number.head? = some '0' ∧ '.' ∉ number ∧
    (number.dropLast.any (· ≠ '0') ∨ number.getLast?.all isOctal = false)

instance : DecidablePred IsMisread := fun _ => inferInstanceAs (Decidable (_ ∧ _ ∧ _))

/-! ## Octal and decimal values -/

variable {base : ℕ} {c : Char} {cs : List Char}

theorem valueIn_concat : valueIn base (cs ++ [c]) = base * valueIn base cs + digitOf c :=
  List.foldl_append

theorem valueIn_zero_cons : valueIn base ('0' :: cs) = valueIn base cs := rfl

theorem digitOf_eq_zero_iff (hc : c.isDigit) : digitOf c = 0 ↔ c = '0' := by
  rw [Char.isDigit_iff_toNat] at hc
  rw [digitOf, ← Char.toNat_inj]
  exact Nat.sub_eq_zero_iff_le.trans ⟨fun h => Nat.le_antisymm h hc.1, Nat.le_of_eq⟩

/-- A number has no larger value in octal than in decimal. -/
theorem valueIn_octal_le : valueIn 8 cs ≤ valueIn 10 cs := by
  induction cs using List.reverseRecOn with
  | nil => exact Nat.le_refl _
  | append_singleton cs c ih =>
    rw [valueIn_concat, valueIn_concat]
    omega

theorem valueIn_eq_zero_iff (hcs : ∀ c ∈ cs, c.isDigit) :
    valueIn 10 cs = 0 ↔ ∀ c ∈ cs, c = '0' := by
  induction cs using List.reverseRecOn with
  | nil => exact iff_of_true rfl (List.forall_mem_nil _)
  | append_singleton cs c ih =>
    rw [List.forall_mem_append, List.forall_mem_singleton] at hcs ⊢
    rw [valueIn_concat, ← ih hcs.1, ← digitOf_eq_zero_iff hcs.2]
    omega

/-- Octal and decimal values are the same if nothing but zeros stands before the last digit. -/
theorem valueIn_octal_eq_iff (hcs : ∀ c ∈ cs, c.isDigit) :
    valueIn 8 (cs ++ [c]) = valueIn 10 (cs ++ [c]) ↔ ∀ d ∈ cs, d = '0' := by
  have hle : valueIn 8 cs ≤ valueIn 10 cs := valueIn_octal_le
  rw [← valueIn_eq_zero_iff hcs, valueIn_concat, valueIn_concat]
  omega

/-! ## When a constant has the value of the number -/

theorem isOctal_zero : isOctal '0' = true := by decide

/-- A constant of digits has the value of the number unless it is octal. -/
theorem integer?_of_ne {digits : List Char} (hc : c ≠ '0') :
    integer? (c :: digits) = some (valueIn 10 (c :: digits)) := by
  rw [integer?]
  · exact List.cons_ne_nil _ _
  · rintro d behind ⟨⟩
    exact hc rfl

/-- An octal constant has the value of the number if its first digits are zeros and its last one is
octal. -/
theorem integer?_octal_iff (hcs : ∀ d ∈ cs, d.isDigit) :
    integer? ('0' :: (cs ++ [c])) = some (valueIn 10 ('0' :: (cs ++ [c]))) ↔
      (∀ d ∈ cs, d = '0') ∧ isOctal c = true := by
  obtain ⟨d, ds, hd⟩ : ∃ d ds, cs ++ [c] = d :: ds :=
    List.exists_cons_of_ne_nil (List.append_ne_nil_of_right_ne_nil _ (List.cons_ne_nil _ _))
  rw [hd, integer?, valueIn_zero_cons, ← hd, Option.ite_none_right_eq_some, Option.some_inj,
    valueIn_octal_eq_iff hcs, List.all_append, Bool.and_eq_true, List.all_eq_true]
  constructor
  · rintro ⟨⟨-, hlast⟩, hzeros⟩
    exact ⟨hzeros, by simpa using hlast⟩
  · rintro ⟨hzeros, hlast⟩
    exact ⟨⟨fun e he => hzeros e he ▸ isOctal_zero, by simpa using hlast⟩, hzeros⟩

theorem integer?_eq_value_iff (hcs : IsDigits cs) :
    integer? cs = some (valueIn 10 cs) ↔ ¬ IsMisread cs := by
  obtain ⟨hne, hdigits⟩ := hcs
  obtain ⟨c, digits, rfl⟩ := List.exists_cons_of_ne_nil hne
  by_cases hzero : c = '0'
  · subst hzero
    have hpoint : '.' ∉ '0' :: digits := fun hmem => absurd (hdigits _ hmem) (by decide)
    cases digits using List.reverseRecOn with
    | nil => exact iff_of_true rfl (by simp [IsMisread, isOctal_zero])
    | append_singleton digits last =>
      have hmiddle : ∀ d ∈ digits, d.isDigit := fun d hd => hdigits d (by simp [hd])
      rw [integer?_octal_iff hmiddle, IsMisread, and_iff_right (List.head?_cons),
        and_iff_right hpoint, ← List.cons_append, List.dropLast_concat, List.getLast?_concat,
        not_or]
      simp
  · refine iff_of_true (integer?_of_ne hzero) fun hmisread => hzero ?_
    exact Option.some.inj hmisread.1

/-- C takes a number for its value exactly if it is not misread. -/
theorem constant?_eq_value_iff {number : List Char} (h : IsNumber number) :
    constant? number = some (literalValue number) ↔ ¬ IsMisread number := by
  cases h with
  | whole h =>
    have hrun : number.takeWhile Char.isDigit = number := List.takeWhile_eq_self_iff.mpr h.2
    have hbehind : number.dropWhile Char.isDigit = [] := List.dropWhile_eq_nil_iff.mpr h.2
    have hvalue : literalValue number = (valueIn 10 number : ℚ) := by
      rw [literalValue, hrun, hbehind, decimal]
      simp [valueIn]
    have hconstant : constant? number = (integer? number).map (Nat.cast : ℕ → ℚ) := by
      rw [constant?, hrun, hbehind]
    rw [hconstant, hvalue, ← integer?_eq_value_iff h]
    exact (Option.map_injective Nat.cast_injective).eq_iff' rfl
  | @fraction whole fraction h h' =>
    have hpoint : Lexeme.NoneAhead Char.isDigit ('.' :: fraction) :=
      Lexeme.noneAhead_cons.mpr rfl
    have hdigits : fraction.all Char.isDigit = true := List.all_eq_true.mpr h'.2
    have hempty : (whole ++ fraction).isEmpty = false := by
      simp [h.1]
    have hconstant : constant? (whole ++ '.' :: fraction) = some (decimal whole fraction) := by
      rw [constant?, Lexeme.takeWhile_run h.2 hpoint, Lexeme.dropWhile_run h.2 hpoint]
      exact if_pos (by rw [hdigits, hempty]; rfl)
    rw [hconstant, literalValue, Lexeme.takeWhile_run h.2 hpoint, Lexeme.dropWhile_run h.2 hpoint]
    refine iff_of_true rfl fun hmisread => hmisread.2.1 ?_
    exact List.mem_append_right _ List.mem_cons_self

/-! ## Where C finds the numbers -/

variable {t : Token} {ts : List Token}

/-- The numbers among the tokens of C are those among the tokens of the program. -/
theorem isNumber_text (hkind : t.kind.isOperand ∨ IsJoint t) (ht : t.kind.Spells t.text) :
    isNumber t.text.toList = decide (t.kind = .number) := by
  rcases hkind with hoperand | ⟨o, hk, -⟩
  · cases hk : t.kind with
    | number =>
      rw [hk] at ht
      obtain ⟨d, tail, htext, hd, htail⟩ := IsNumber.exists_eq_cons ht
      rw [htext, isNumber_of_isDigit hd, ← List.append_nil tail, isNumberTail_append htail]
      rfl
    | identifier =>
      rw [hk] at ht
      obtain ⟨⟨a, rest, htext, ha, -⟩, -⟩ := ht
      rw [htext, isNumber_of_isAlpha ha]
      rfl
    | endOfInput | newline | string | keyword | operator =>
      rw [hk] at hoperand
      cases hoperand
  · rw [text_of_operator hk ht, hk]
    cases o <;> rfl

/-- The texts of the numbers among some tokens. -/
def numbersIn (ts : List Token) : List (List Char) :=
  (ts.filter fun t => t.kind = .number).map fun t => t.text.toList

theorem numbersIn_append (ts us : List Token) :
    numbersIn (ts ++ us) = numbersIn ts ++ numbersIn us := by
  rw [numbersIn, List.filter_append, List.map_append, numbersIn, numbersIn]

theorem numbersIn_cons_of_ne (h : t.kind ≠ .number) : numbersIn (t :: ts) = numbersIn ts := by
  rw [numbersIn, List.filter_cons_of_neg (by simpa using h), numbersIn]

theorem filter_isNumber_cons (hkind : t.kind.isOperand ∨ IsJoint t) (ht : t.kind.Spells t.text)
    {words : List (List Char)} (h : words.filter isNumber = numbersIn ts) :
    (t.text.toList :: words).filter isNumber = numbersIn (t :: ts) := by
  rw [numbersIn, List.filter_cons, List.filter_cons, isNumber_text hkind ht]
  split
  · rw [List.map_cons, h, numbersIn]
  · exact h

/-- C cuts an expression, and finds the numbers of the program in it.  The tokens of C are those of
the program but for the same sign twice, which is one token in C and no number. -/
theorem exists_splits (hspells : ∀ t ∈ ts, t.kind.Spells t.text) (hchain : ts.IsChain Adjacent)
    (hkinds : ∀ t ∈ ts, t.kind.isOperand ∨ IsJoint t) :
    ∃ words, Splits (joinTexts ts).toList words ∧ words.filter isNumber = numbersIn ts := by
  -- two steps, since the same sign twice is passed over at once
  induction ts using List.twoStepInduction with
  | nil => exact ⟨[], .nil, rfl⟩
  | singleton t =>
    obtain ⟨ht, hts⟩ := List.forall_mem_cons.mp hspells
    have hkind := hkinds t List.mem_cons_self
    have hlongest := (longest_iff hkind ht hts (List.isChain_cons.mp hchain).1).mpr (by simp)
    rw [toList_joinTexts_cons]
    exact ⟨_, .cons hlongest .nil, filter_isNumber_cons hkind ht rfl⟩
  | cons_cons t u ts ih ihnext =>
    obtain ⟨hnext, hlater⟩ := List.isChain_cons.mp hchain
    obtain ⟨ht, hts⟩ := List.forall_mem_cons.mp hspells
    obtain ⟨hkind, hkinds⟩ := List.forall_mem_cons.mp hkinds
    rw [toList_joinTexts_cons]
    by_cases hsame : SameSign t u
    · obtain ⟨sign, hsign, hkt, hku⟩ := hsame
      obtain ⟨hu, hts⟩ := List.forall_mem_cons.mp hts
      obtain ⟨words, hsplits, hnumbers⟩ :=
        ih hts (List.isChain_cons.mp hlater).2 (List.forall_mem_cons.mp hkinds).2
      rw [toList_joinTexts_cons, text_of_operator hkt ht, text_of_operator hku hu,
        ← List.append_assoc]
      have hdouble : ¬ isNumber (sign.text.toList ++ sign.text.toList) = true := by
        cases sign <;> decide
      refine ⟨_, .cons (longest_sign_twice hsign _) hsplits, ?_⟩
      rw [List.filter_cons_of_neg hdouble, numbersIn_cons_of_ne (by simp [hkt]),
        numbersIn_cons_of_ne (by simp [hku]), hnumbers]
    · obtain ⟨words, hsplits, hnumbers⟩ := ihnext u hts hlater hkinds
      have hlongest := (longest_iff hkind ht hts hnext).mpr fun ⟨_, hv, hsame'⟩ =>
        hsame (Option.some.inj hv ▸ hsame')
      exact ⟨_, .cons hlongest hsplits, filter_isNumber_cons hkind ht hnumbers⟩

/-- The numbers in some expressions, as C finds them and as the program has them. -/
theorem exists_forall₂_splits {phrases : List (List Token)}
    (h : ∀ phrase ∈ phrases, IsPhrase phrase ∧ ∀ t ∈ phrase, t.kind.Spells t.text) :
    ∃ words : List (List (List Char)),
      List.Forall₂ (fun text => Splits text.toList) (phrases.map joinTexts) words ∧
        words.flatten.filter isNumber = numbersIn phrases.flatten := by
  induction phrases with
  | nil => exact ⟨[], .nil, rfl⟩
  | cons phrase phrases ih =>
    obtain ⟨⟨hphrase, hspells⟩, hlater⟩ := List.forall_mem_cons.mp h
    obtain ⟨first, hfirst, hnumbers⟩ := exists_splits hspells hphrase.chain hphrase.kinds
    obtain ⟨words, hwords, hrest⟩ := ih hlater
    refine ⟨first :: words, .cons hfirst hwords, ?_⟩
    rw [List.flatten_cons, List.filter_append, List.flatten_cons, numbersIn_append, hnumbers, hrest]

end CText

/-! ## The expressions in the lines of a program -/

/-- The expressions and conditions in some lines.  The line behind one that asks for a value gives a
value too, but that one is no expression of the source. -/
def Line.expressions : List Line → List String
  | [] => []
  | input _ :: _ :: lines => expressions lines
  | printValue value :: lines => value :: expressions lines
  | assign _ value :: lines => value :: expressions lines
  | opening _ test :: lines => test :: expressions lines
  | _ :: lines => expressions lines

/-- The expressions and conditions of a program that stand in no other one. -/
def Program.outermost : Program → List (List Token)
  | [] => []
  | .simple form _ :: rest => form.phrases ++ outermost rest
  | .block _ head body _ :: rest => head.test.tokens :: (outermost body ++ outermost rest)

theorem Program.mem_phrases_of_mem_outermost {p : Program} {phrase : List Token}
    (h : phrase ∈ p.outermost) : phrase ∈ p.phrases := by
  induction p using Program.induction with
  | nil =>
    rw [Program.outermost] at h
    cases h
  | simple form ends later ih =>
    rw [Program.outermost, List.mem_append] at h
    rw [Program.phrases, List.mem_append]
    exact h.imp_right ih
  | block b head body foot later ihbody ihlater =>
    rw [Program.outermost, List.mem_cons, List.mem_append] at h
    rw [Program.phrases, List.mem_append, List.mem_append]
    rcases h with rfl | hbody | hlater
    · exact .inl (.inl List.mem_cons_self)
    · exact .inl (.inr (ihbody hbody))
    · exact .inr (ihlater hlater)

/-- The expressions in the lines of a program are those of the program. -/
theorem Program.expressions_asLines (p : Program) (rest : List Line) :
    Line.expressions (p.asLines ++ rest) = p.outermost.map joinTexts ++ Line.expressions rest := by
  induction p using Program.induction generalizing rest with
  | nil =>
    rw [Program.asLines, Program.outermost]
    rfl
  | simple form ends later ih =>
    rw [Program.asLines, Program.outermost, List.append_assoc, List.map_append, List.append_assoc,
      ← ih]
    cases form <;> rfl
  | block b head body foot later ihbody ihlater =>
    have hclosing (lines : List Line) :
        Line.expressions (.closing :: lines) = Line.expressions lines := rfl
    rw [Program.asLines, Program.outermost, List.cons_append, Line.expressions, List.append_assoc,
      ihbody, List.cons_append, hclosing, ihlater, List.map_cons, List.map_append,
      List.cons_append, List.append_assoc]

/-- Before the lines of a program stand no expressions, and behind them neither. -/
theorem Program.expressions_listingAsLines (p : Program) :
    Line.expressions p.listingAsLines = p.outermost.map joinTexts := by
  have hdeclarations (names : List String) (lines : List Line) :
      Line.expressions (names.map .declaration ++ lines) = Line.expressions lines := by
    induction names with
    | nil => rfl
    | cons name names ih => exact ih
  rw [listingAsLines, hdeclarations, p.expressions_asLines]
  exact List.append_nil _

/-! ## The numbers of a program -/

theorem Kind.isContent_number : Kind.number.IsContent where
  ne_newline := Kind.noConfusion
  ne_endOfInput := Kind.noConfusion
  ne_keyword _ := Kind.noConfusion

theorem Form.filter_number (form : Form) :
    (form.tokens.filter fun t => t.kind = .number) =
      form.phrases.flatten.filter fun t => t.kind = .number := by
  cases form with
  | printValue word value =>
    rw [tokens, word.filter_cons Kind.noConfusion, phrases, List.flatten_singleton]
  | assign word name equals value =>
    rw [tokens, word.filter_cons Kind.noConfusion, name.filter_cons Kind.noConfusion,
      equals.filter_cons Kind.noConfusion, phrases, List.flatten_singleton]
  | printString word text =>
    rw [tokens, word.filter_cons Kind.noConfusion, text.filter_cons Kind.noConfusion]
    rfl
  | label word name | jump word name | input word name =>
    rw [tokens, word.filter_cons Kind.noConfusion, name.filter_cons Kind.noConfusion]
    rfl

/-- All numbers of a program stand in its expressions and conditions. -/
theorem Program.filter_number (p : Program) :
    (p.tokens.filter fun t => t.kind = .number) =
      p.outermost.flatten.filter fun t => t.kind = .number := by
  have hcontent := Kind.isContent_number
  induction p using Program.induction with
  | nil =>
    rw [Program.outermost, Program.tokens]
    rfl
  | simple form ends later ih =>
    rw [Program.outermost, Program.tokens, List.flatten_append, List.filter_append,
      List.filter_append, List.filter_append, form.filter_number, hcontent.filter_lineEnds,
      List.append_nil, ih]
  | block b head body foot later ihbody ihlater =>
    rw [Program.outermost, Program.tokens, List.flatten_cons, List.flatten_append]
    simp only [List.filter_append]
    rw [hcontent.filter_head, hcontent.filter_foot, List.append_nil, ihbody, ihlater,
      List.append_assoc]

/-- In the expressions and conditions of the translation of an accepted source, C finds the numbers
of the source in their order.  It takes a number for its value exactly if that is not one of those
which are octal in C. -/
theorem keeps_value_iff {filename text : String} {c : Compiled}
    (h : compile filename text = .ok c) :
    c.code = unlines (preamble ++ (linesOf c.code).map Line.text) ∧
      (∃ words : List (List (List Char)),
        List.Forall₂ (fun e => CText.Splits e.toList) (Line.expressions (linesOf c.code)) words ∧
          words.flatten.filter CText.isNumber =
            CText.numbersIn (Source.ofString filename text).tokenize.tokens) ∧
      ∀ t ∈ (Source.ofString filename text).tokenize.tokens, t.kind = .number →
        (CText.constant? t.text.toList = some (CText.literalValue t.text.toList) ↔
          ¬ CText.IsMisread t.text.toList) := by
  obtain ⟨tree⟩ := nonempty_tree_of_compile h
  have hwritten := writtenAs_of_compile h tree
  refine ⟨hwritten.code_eq_lines, ?_, fun t ht hk => ?_⟩
  · rw [hwritten.lines_eq, Program.expressions_listingAsLines, CText.numbersIn,
      tree.filter_tokens Kind.isContent_number, Program.filter_number]
    refine CText.exists_forall₂_splits fun phrase hphrase => ?_
    obtain ⟨hisPhrase, htokens, -⟩ :=
      Program.phrases_spec (Program.mem_phrases_of_mem_outermost hphrase)
    exact ⟨hisPhrase, fun t ht => hwritten.spells t (htokens.subset ht)⟩
  · have hnumber := Source.spells_of_mem_tokens ht
    rw [hk] at hnumber
    exact CText.constant?_eq_value_iff hnumber

/-- A source with three numbers that begin with a zero. -/
def zerosText : String := "PRINT 007\nPRINT 010\nPRINT 1.50 - -09"

/-- A number that keeps its value, one that has another value in C and one that has none there. -/
theorem keeps_value_iff_three_numbers :
    ∃ c kept octal broken, compile "zeros.tt" zerosText = .ok c ∧
      Line.expressions (linesOf c.code) = ["007", "010", "1.50--09"] ∧
      kept ∈ (Source.ofString "zeros.tt" zerosText).tokenize.tokens ∧
      octal ∈ (Source.ofString "zeros.tt" zerosText).tokenize.tokens ∧
      broken ∈ (Source.ofString "zeros.tt" zerosText).tokenize.tokens ∧
      [kept, octal, broken].map Token.text = ["007", "010", "09"] ∧
      CText.constant? kept.text.toList = some (CText.literalValue kept.text.toList) ∧
      CText.constant? octal.text.toList = some 8 ∧
      CText.constant? octal.text.toList ≠ some (CText.literalValue octal.text.toList) ∧
      CText.constant? broken.text.toList = none ∧
      CText.constant? broken.text.toList ≠ some (CText.literalValue broken.text.toList) := by
  have hc : compile "zeros.tt" zerosText = .ok ⟨"zeros.tt",
      "#include <stdio.h>\nint main(void)\x7b\nprintf(\"%.2f\\n\", (float)(007));\n" ++
        "printf(\"%.2f\\n\", (float)(010));\nprintf(\"%.2f\\n\", (float)(1.50--09));\n" ++
        "return 0;\n\x7d\n", 12, [], [], none⟩ := by
    cbv
  have hkept : (Source.ofString "zeros.tt" zerosText).tokenize.tokens[1]? =
      some ⟨.number, "007", "zeros.tt", 1, 7⟩ := by
    cbv
  have hoctal : (Source.ofString "zeros.tt" zerosText).tokenize.tokens[4]? =
      some ⟨.number, "010", "zeros.tt", 2, 7⟩ := by
    cbv
  have hbroken : (Source.ofString "zeros.tt" zerosText).tokenize.tokens[10]? =
      some ⟨.number, "09", "zeros.tt", 3, 15⟩ := by
    cbv
  obtain ⟨-, -, hvalues⟩ := keeps_value_iff hc
  have hkeeps := hvalues _ (List.mem_of_getElem? hkept) rfl
  have hchanges := hvalues _ (List.mem_of_getElem? hoctal) rfl
  have hbreaks := hvalues _ (List.mem_of_getElem? hbroken) rfl
  exact ⟨_, _, _, _, hc, by cbv, List.mem_of_getElem? hkept, List.mem_of_getElem? hoctal,
    List.mem_of_getElem? hbroken, rfl, hkeeps.mpr (by decide), rfl,
    fun hvalue => hchanges.mp hvalue (by decide), rfl,
    fun hvalue => hbreaks.mp hvalue (by decide)⟩

end PocketBasic

import PocketBasic.Proofs.Lexing.Spelling

/-!
# How C reads a text

C cuts a text into tokens from left to right, and each token is the longest one that the
text at that point begins with.  The tokens are identifiers, numbers and punctuators; the
openers of comments count as punctuators here, since they are found by the same rule.  A
number may go on with letters, points and signed exponents, so C takes more characters for
parts of a number than it gives a meaning.

`Splits` is that rule.  The rest of the file says for the words, numbers and operators of
the language behind which characters they end in C as they do in a program.
-/

namespace PocketBasic.CText

/-! ## Tokens of C -/

/-- The characters of identifiers. -/
def isIdentifierChar (c : Char) : Bool := c.isAlphanum || c = '_'

/-- Identifiers, with keywords among them. -/
def isIdentifier : List Char → Bool
  | [] => false
  | c :: cs => (c.isAlpha || c = '_') && cs.all isIdentifierChar

/-- What may stand behind the first digit of a number. -/
def isNumberTail : List Char → Bool
  | [] => true
  | [c] => isIdentifierChar c || c = '.'
  | c :: sign :: rest =>
    if "eEpP".toList.contains c && "+-".toList.contains sign then isNumberTail rest
    else (isIdentifierChar c || c = '.') && isNumberTail (sign :: rest)

/-- Numbers. -/
def isNumber : List Char → Bool
  | [] => false
  | '.' :: c :: rest => c.isDigit && isNumberTail rest
  | c :: rest => c.isDigit && isNumberTail rest

/-- The punctuators, and the openers of comments. -/
def punctuators : List (List Char) :=
  ["[", "]", "(", ")", "\x7b", "\x7d", ".", "->", "++", "--", "&", "*", "+", "-", "~", "!", "/",
    "%", "<<", ">>", "<", ">", "<=", ">=", "==", "!=", "^", "|", "&&", "||", "?", ":", ";", "...",
    "=", "*=", "/=", "%=", "+=", "-=", "<<=", ">>=", "&=", "^=", "|=", ",", "#", "##",
    "<:", ":>", "<%", "%>", "%:", "%:%:", "//", "/*"].map String.toList

/-- What C takes for one token. -/
def isToken (cs : List Char) : Bool := isIdentifier cs || isNumber cs || punctuators.contains cs

/-! ## The rule of the longest token -/

/-- The longest token that a text begins with, and what stands behind it. -/
structure Longest (input token rest : List Char) : Prop where
  input_eq : input = token ++ rest
  valid : isToken token = true
  longest : ∀ candidate, candidate <+: input → isToken candidate = true →
    candidate.length ≤ token.length

/-- A text is cut into tokens, always into the longest one that it begins with. -/
inductive Splits : List Char → List (List Char) → Prop where
  | nil : Splits [] []
  | cons {input token rest : List Char} {tokens : List (List Char)}
    (h : Longest input token rest) (later : Splits rest tokens) : Splits input (token :: tokens)

theorem Longest.unique {input token rest token' rest' : List Char} (h : Longest input token rest)
    (h' : Longest input token' rest') : token = token' ∧ rest = rest' := by
  have hprefix : token <+: input := ⟨rest, h.input_eq.symm⟩
  have hprefix' : token' <+: input := ⟨rest', h'.input_eq.symm⟩
  have hle := h'.longest token hprefix h.valid
  have hge := h.longest token' hprefix' h'.valid
  have htoken : token = token' :=
    (List.prefix_of_prefix_length_le hprefix hprefix' hle).eq_of_length_le hge
  refine ⟨htoken, ?_⟩
  have hinput := h.input_eq.symm.trans h'.input_eq
  rw [htoken] at hinput
  exact List.append_cancel_left hinput

/-- A text is cut in one way only. -/
theorem Splits.unique {input : List Char} {tokens tokens' : List (List Char)}
    (h : Splits input tokens) (h' : Splits input tokens') : tokens = tokens' := by
  induction h generalizing tokens' with
  | nil =>
    cases h' with
    | nil => rfl
    | cons hlongest later =>
      have htoken := hlongest.valid
      rw [(List.append_eq_nil_iff.mp hlongest.input_eq.symm).1] at htoken
      cases htoken
  | cons hlongest later ih =>
    cases h' with
    | nil =>
      have htoken := hlongest.valid
      rw [(List.append_eq_nil_iff.mp hlongest.input_eq.symm).1] at htoken
      cases htoken
    | cons hlongest' later' =>
      obtain ⟨rfl, rfl⟩ := hlongest.unique hlongest'
      rw [ih later']

theorem splits_append_iff {token rest : List Char} {tokens : List (List Char)} :
    Splits (token ++ rest) (token :: tokens) ↔
      Longest (token ++ rest) token rest ∧ Splits rest tokens := by
  constructor
  · intro h
    generalize hinput : token ++ rest = input at h ⊢
    cases h with
    | cons hlongest later =>
      obtain rfl := List.append_cancel_left (hinput.trans hlongest.input_eq)
      exact ⟨hlongest, later⟩
  · rintro ⟨hlongest, later⟩
    exact .cons hlongest later

/-- A token is the longest one if no longer one goes on with the text behind it. -/
theorem longest_of_forall {token rest : List Char} (htoken : isToken token = true)
    (h : ∀ c more, (c :: more) <+: rest → isToken (token ++ c :: more) = false) :
    Longest (token ++ rest) token rest := by
  refine ⟨rfl, htoken, ?_⟩
  intro candidate hcandidate hc
  refine Nat.not_lt.mp ?_
  intro hlt
  have hprefix : token <+: candidate :=
    List.prefix_of_prefix_length_le (List.prefix_append _ _) hcandidate (Nat.le_of_lt hlt)
  obtain ⟨more, rfl⟩ := hprefix
  cases more with
  | nil =>
    rw [List.append_nil] at hlt
    exact Nat.lt_irrefl _ hlt
  | cons c more =>
    rw [h c more ((List.prefix_append_right_inj token).mp hcandidate)] at hc
    cases hc

/-! ## Where tokens end -/

theorem isIdentifierChar_of_isAlpha {c : Char} (h : c.isAlpha) : isIdentifierChar c = true := by
  simp [isIdentifierChar, Char.isAlphanum, h]

theorem isIdentifierChar_of_isDigit {c : Char} (h : c.isDigit) : isIdentifierChar c = true := by
  simp [isIdentifierChar, Char.isAlphanum, h]

/-- No punctuator has a character of identifiers in it. -/
theorem isIdentifierChar_of_mem_punctuators :
    ∀ q ∈ punctuators, ∀ c ∈ q, isIdentifierChar c = false := by
  have hall : (punctuators.all fun q => q.all fun c => !isIdentifierChar c) = true := by decide
  intro q hq c hc
  have hchar := List.all_eq_true.mp (List.all_eq_true.mp hall q hq) c hc
  simpa using hchar

theorem isToken_eq_false {cs : List Char} (hidentifier : isIdentifier cs = false)
    (hnumber : isNumber cs = false) (hpunctuator : cs ∉ punctuators) : isToken cs = false := by
  rw [isToken, hidentifier, hnumber, Bool.false_or, Bool.false_or, List.contains_eq_mem]
  exact decide_eq_false hpunctuator

theorem not_mem_punctuators {c : Char} {cs : List Char} (hc : isIdentifierChar c = true) :
    c :: cs ∉ punctuators := by
  intro hmem
  rw [isIdentifierChar_of_mem_punctuators _ hmem c List.mem_cons_self] at hc
  cases hc

theorem isNumber_of_isAlpha {c : Char} (hc : c.isAlpha) (cs : List Char) :
    isNumber (c :: cs) = false := by
  unfold isNumber
  split
  · rfl
  · rename_i heq
    obtain ⟨rfl, rfl⟩ := List.cons.inj heq
    cases hc
  · rename_i heq
    obtain ⟨rfl, rfl⟩ := List.cons.inj heq
    rw [isDigit_eq_false_of_isAlpha hc, Bool.false_and]

theorem isNumber_of_isDigit {c : Char} (hc : c.isDigit) (cs : List Char) :
    isNumber (c :: cs) = isNumberTail cs := by
  unfold isNumber
  split
  · rename_i heq
    cases heq
  · rename_i heq
    obtain ⟨rfl, rfl⟩ := List.cons.inj heq
    cases hc
  · rename_i heq
    obtain ⟨rfl, rfl⟩ := List.cons.inj heq
    rw [hc, Bool.true_and]

/-- What begins with a letter is a token exactly if it is a word. -/
theorem isToken_of_isAlpha {c : Char} (hc : c.isAlpha) (cs : List Char) :
    isToken (c :: cs) = cs.all isIdentifierChar := by
  have hpunctuator : c :: cs ∉ punctuators :=
    not_mem_punctuators (isIdentifierChar_of_isAlpha hc)
  rw [isToken, isNumber_of_isAlpha hc, isIdentifier, hc, List.contains_eq_mem,
    decide_eq_false hpunctuator]
  simp

/-- What begins with a digit is a token exactly if it is a number. -/
theorem isToken_of_isDigit {c : Char} (hc : c.isDigit) (cs : List Char) :
    isToken (c :: cs) = isNumberTail cs := by
  have hpunctuator : c :: cs ∉ punctuators :=
    not_mem_punctuators (isIdentifierChar_of_isDigit hc)
  have hunderscore : c ≠ '_' := by
    rintro rfl
    cases hc
  rw [isToken, isNumber_of_isDigit hc, isIdentifier, isAlpha_eq_false_of_isDigit hc,
    List.contains_eq_mem, decide_eq_false hpunctuator]
  simp [hunderscore]

/-- A word ends before a character that is not one of identifiers. -/
theorem longest_word {word rest : List Char} (hword : IsWord word)
    (hrest : ∀ c more, rest = c :: more → isIdentifierChar c = false) :
    Longest (word ++ rest) word rest := by
  obtain ⟨a, cs, rfl, ha, hcs⟩ := hword
  refine longest_of_forall ?_ fun c more hprefix => ?_
  · rw [isToken_of_isAlpha ha, List.all_eq_true]
    intro d hd
    rw [isIdentifierChar, hcs d hd, Bool.true_or]
  · obtain ⟨behind, rfl⟩ := hprefix
    rw [List.cons_append, isToken_of_isAlpha ha, List.all_append, List.all_cons,
      hrest c (more ++ behind) rfl, Bool.false_and, Bool.and_false]

/-- A character that is no sign of an exponent goes on with a number or does not. -/
theorem isNumberTail_cons {c : Char} (hc : c ∉ "eEpP".toList) (cs : List Char) :
    isNumberTail (c :: cs) = ((isIdentifierChar c || c = '.') && isNumberTail cs) := by
  cases cs with
  | nil => rw [isNumberTail, isNumberTail, Bool.and_true]
  | cons sign rest =>
    rw [isNumberTail, List.contains_eq_mem, decide_eq_false hc, Bool.false_and]
    rfl

/-- Digits and points behind the first digit of a number belong to it. -/
theorem isNumberTail_append {cs : List Char} (hcs : ∀ c ∈ cs, c.isDigit ∨ c = '.')
    (more : List Char) : isNumberTail (cs ++ more) = isNumberTail more := by
  induction cs with
  | nil => rfl
  | cons c cs ih =>
    have hdigit : c.isDigit ∨ c = '.' := hcs c List.mem_cons_self
    have hexponent : c ∉ "eEpP".toList := by
      intro hmem
      have hall : ("eEpP".toList.all fun d => !(d.isDigit || d = '.')) = true := by decide
      have hc := List.all_eq_true.mp hall c hmem
      rcases hdigit with h | h <;> simp [h] at hc
    have hgoes : (isIdentifierChar c || c = '.') = true := by
      rcases hdigit with h | h
      · rw [isIdentifierChar_of_isDigit h, Bool.true_or]
      · rw [decide_eq_true h, Bool.or_true]
    rw [List.cons_append, isNumberTail_cons hexponent, hgoes, Bool.true_and]
    exact ih fun d hd => hcs d (List.mem_cons_of_mem _ hd)

/-- A number ends before a character that is neither one of identifiers nor a point. -/
theorem longest_number {number rest : List Char} (hnumber : IsNumber number)
    (hrest : ∀ c more, rest = c :: more → isIdentifierChar c = false ∧ c ≠ '.') :
    Longest (number ++ rest) number rest := by
  obtain ⟨d, tail, rfl, hd, htail⟩ := hnumber.exists_eq_cons
  refine longest_of_forall ?_ fun c more hprefix => ?_
  · rw [isToken_of_isDigit hd, ← List.append_nil tail, isNumberTail_append htail]
    rfl
  · obtain ⟨behind, rfl⟩ := hprefix
    obtain ⟨hidentifier, hpoint⟩ := hrest c (more ++ behind) rfl
    have hexponent : c ∉ "eEpP".toList := by
      intro hmem
      have hall : "eEpP".toList.all isIdentifierChar = true := by decide
      rw [List.all_eq_true.mp hall c hmem] at hidentifier
      cases hidentifier
    rw [List.cons_append, isToken_of_isDigit hd, isNumberTail_append htail,
      isNumberTail_cons hexponent, hidentifier, decide_eq_false hpoint, Bool.or_false,
      Bool.false_and]

/-! ## Operators -/

/-- The characters of an operator are not those of identifiers, nor is one of them a point. -/
theorem text_char_of_operator (o : Operator) :
    ∀ c ∈ o.text.toList, isIdentifierChar c = false ∧ c ≠ '.' := by
  have hall : (o.text.toList.all fun c => !(isIdentifierChar c || c = '.')) = true := by
    cases o <;> decide
  intro c hc
  have hchar := List.all_eq_true.mp hall c hc
  simpa using hchar

/-- The operators that stand between operands. -/
def isJoint (o : Operator) : Bool := o.isArithmetic || o.isComparison

/-- The only operators that grow into longer tokens when a sign stands behind them are the
signs themselves, before the same sign. -/
theorem exists_punctuator_iff {o sign : Operator} (ho : isJoint o) (hsign : sign.isSign) :
    (∃ q ∈ punctuators, (o.text.toList ++ sign.text.toList) <+: q) ↔ o = sign := by
  cases o <;> cases sign <;> first | cases ho; done | cases hsign; done | decide

theorem isToken_text {o : Operator} (ho : isJoint o) : isToken o.text.toList = true := by
  cases o <;> first | cases ho; done | decide

/-- What begins with an operator is a token only if it is a punctuator. -/
theorem isToken_of_operator {o : Operator} {cs : List Char} (h : o.text.toList ++ cs ∉ punctuators) :
    isToken (o.text.toList ++ cs) = false := by
  refine isToken_eq_false ?_ ?_ h
  · cases o <;> rfl
  · cases o <;> cases cs <;> rfl

/-- An operator ends before an operand, and before a sign that is another operator. -/
theorem longest_operator {o : Operator} (ho : isJoint o) {rest : List Char}
    (hrest : ∀ c more, rest = c :: more → isIdentifierChar c = true ∨
      ∃ sign : Operator, sign.isSign ∧ sign.text.toList = [c] ∧ o ≠ sign) :
    Longest (o.text.toList ++ rest) o.text.toList rest := by
  refine longest_of_forall (isToken_text ho) ?_
  intro c more hprefix
  refine isToken_of_operator ?_
  intro hmem
  obtain ⟨behind, rfl⟩ := hprefix
  rcases hrest c (more ++ behind) rfl with hc | ⟨sign, hsign, hc, hne⟩
  · have hnot := isIdentifierChar_of_mem_punctuators _ hmem c
      (List.mem_append_right _ List.mem_cons_self)
    rw [hc] at hnot
    cases hnot
  · refine hne ((exists_punctuator_iff ho hsign).mp ⟨_, hmem, more, ?_⟩)
    rw [hc, List.append_assoc, List.singleton_append]

theorem isToken_sign_twice {sign : Operator} (hsign : sign.isSign) :
    isToken (sign.text.toList ++ sign.text.toList) = true := by
  cases sign <;> first | cases hsign; done | decide

/-- A sign does not end before the same sign. -/
theorem not_longest_sign {sign : Operator} (hsign : sign.isSign) (rest : List Char) :
    ¬ Longest (sign.text.toList ++ (sign.text.toList ++ rest)) sign.text.toList
      (sign.text.toList ++ rest) := by
  intro h
  have hle := h.longest _ ⟨rest, List.append_assoc _ _ _⟩ (isToken_sign_twice hsign)
  have hpos : 0 < sign.text.toList.length := by
    cases sign <;> decide
  rw [List.length_append] at hle
  omega

/-- The same sign twice ends before whatever stands behind it. -/
theorem longest_sign_twice {sign : Operator} (hsign : sign.isSign) (rest : List Char) :
    Longest (sign.text.toList ++ sign.text.toList ++ rest) (sign.text.toList ++ sign.text.toList)
      rest := by
  have hlong : ∀ q ∈ punctuators, sign.text.toList ++ sign.text.toList <+: q →
      q.length ≤ (sign.text.toList ++ sign.text.toList).length := by
    cases sign <;> first | cases hsign; done | decide
  refine longest_of_forall (isToken_sign_twice hsign) fun c more _ => ?_
  rw [List.append_assoc]
  refine isToken_of_operator fun hmem => ?_
  rw [← List.append_assoc] at hmem
  have hle := hlong _ hmem (List.prefix_append _ _)
  rw [List.length_append, List.length_cons] at hle
  omega

end PocketBasic.CText

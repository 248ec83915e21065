import PocketBasic.Proofs.Decoding

/-!
# The names in a translation

The variables and labels of a program are found in the lines of its translation.  The variables in
an expression are the identifiers that stand in its text (`namesIn`), and these are the ones that
the tokens of the expression name (`CText.IsPhrase.namesIn_joinTexts`).  A line mentions the
variables in its expression and the one that it gives a value.

Every use of a variable in a program stands behind an assignment, and so it does in the lines:
`Line.Assigned` says of lines that the variables in each expression are known from the lines
before.  Hence the first line in which a variable occurs gives it a value without using it
(`Line.Assigned.exists_first`).  If that is the first line of an `INPUT`, the other three follow
(`Line.InputsWhole`).

Main statements: the lines of a program are `Assigned` if its uses are (`Program.assigned_asLines`);
the variables that they give values, the labels that they are and the jumps in them are those of
the program (`Program.mem_targets_iff`, `Program.filterMap_label?`, `Program.filterMap_jump?`).
-/

namespace PocketBasic

/-! ## Names in a text -/

/-- The identifiers in a text of C: the longest runs of letters, digits and underscores that do
not begin with a digit. -/
def namesIn (cs : List Char) : List String :=
  ((cs.splitOnP fun c => !CText.isIdentifierChar c).filter CText.isIdentifier).map String.ofList

theorem namesIn_nil : namesIn [] = [] := rfl

theorem namesIn_append_cons (before : List Char) {c : Char} (hc : CText.isIdentifierChar c = false)
    (behind : List Char) : namesIn (before ++ c :: behind) = namesIn before ++ namesIn behind := by
  have hstop : (!CText.isIdentifierChar c) = true := by rw [hc]; rfl
  rw [namesIn, List.splitOnP_append_cons (p := fun c => !CText.isIdentifierChar c) _ _ hstop,
    List.filter_append, List.map_append, namesIn, namesIn]

/-- A run of characters that no identifier has in it has no names in it. -/
theorem namesIn_append_of_none {run : List Char}
    (h : ∀ c ∈ run, CText.isIdentifierChar c = false) (behind : List Char) :
    namesIn (run ++ behind) = namesIn behind := by
  induction run with
  | nil => rfl
  | cons c run ih =>
    obtain ⟨hc, hrun⟩ := List.forall_mem_cons.mp h
    exact (namesIn_append_cons [] hc (run ++ behind)).trans (ih hrun)

/-- A text ends where a character stands that no identifier has in it. -/
theorem namesIn_append (before : List Char) {behind : List Char}
    (h : ∀ c ∈ behind.head?, CText.isIdentifierChar c = false) :
    namesIn (before ++ behind) = namesIn before ++ namesIn behind := by
  cases behind with
  | nil => rw [List.append_nil, namesIn_nil, List.append_nil]
  | cons c behind =>
    have hc := h c rfl
    have hbehind : namesIn (c :: behind) = namesIn behind := namesIn_append_cons [] hc behind
    rw [namesIn_append_cons before hc, hbehind]

theorem namesIn_of_forall {run : List Char} (h : ∀ c ∈ run, CText.isIdentifierChar c = true) :
    namesIn run = if CText.isIdentifier run then [String.ofList run] else [] := by
  have hsingle : run.splitOnP (fun c => !CText.isIdentifierChar c) = [run] :=
    List.splitOnP_eq_singleton fun c hc => by simp [h c hc]
  rw [namesIn, hsingle, List.filter_singleton]
  cases CText.isIdentifier run <;> rfl

namespace CText

variable {t : Token} {ts : List Token}

theorem namesIn_of_isWord {word : List Char} (h : IsWord word) :
    namesIn word = [String.ofList word] := by
  obtain ⟨c, rest, rfl, hc, hrest⟩ := h
  have hall : ∀ d ∈ c :: rest, isIdentifierChar d = true := by
    refine List.forall_mem_cons.mpr ⟨isIdentifierChar_of_isAlpha hc, fun d hd => ?_⟩
    rw [isIdentifierChar, hrest d hd]
    rfl
  have hidentifier : isIdentifier (c :: rest) = true := by
    rw [isIdentifier, hc, List.all_eq_true.mpr fun d hd => hall d (List.mem_cons_of_mem c hd)]
    rfl
  rw [namesIn_of_forall hall, if_pos hidentifier]

theorem namesIn_of_isDigits {digits : List Char} (h : IsDigits digits) : namesIn digits = [] := by
  have hall : ∀ d ∈ digits, isIdentifierChar d = true := fun d hd =>
    isIdentifierChar_of_isDigit (h.2 d hd)
  rw [namesIn_of_forall hall, if_neg]
  obtain ⟨c, rest, rfl⟩ := List.exists_cons_of_ne_nil h.1
  have hdigit := h.2 c List.mem_cons_self
  have hunderscore : c ≠ '_' := by
    rintro rfl
    cases hdigit
  simp [isIdentifier, isAlpha_eq_false_of_isDigit hdigit, hunderscore]

theorem namesIn_of_isNumber {text : List Char} (h : IsNumber text) : namesIn text = [] := by
  cases h with
  | whole h => exact namesIn_of_isDigits h
  | fraction h h' =>
    rw [namesIn_append_cons _ (by decide), namesIn_of_isDigits h, namesIn_of_isDigits h',
      List.append_nil]

/-- The names that a token of an expression is. -/
theorem namesIn_of_operand (hk : t.kind.isOperand) (ht : t.kind.Spells t.text) :
    namesIn t.text.toList = if t.kind = .identifier then [t.text] else [] := by
  cases hkind : t.kind with
  | number =>
    rw [hkind] at ht
    exact namesIn_of_isNumber ht
  | identifier =>
    rw [hkind] at ht
    rw [namesIn_of_isWord ht.1, String.ofList_toList]
    rfl
  | endOfInput | newline | string | keyword | operator =>
    rw [hkind] at hk
    cases hk

/-- What stands behind an operand in an expression begins with a character that no identifier has
in it. -/
theorem head_joinTexts (hspells : ∀ u ∈ ts, u.kind.Spells u.text)
    (hnext : ∀ u ∈ ts.head?, IsJoint u) :
    ∀ c ∈ (joinTexts ts).toList.head?, isIdentifierChar c = false := by
  intro c hc
  cases ts with
  | nil => cases hc
  | cons u us =>
    obtain ⟨d, ds, hd, hchar, -⟩ := text_of_joint (hnext u rfl) (hspells u List.mem_cons_self)
    rw [toList_joinTexts_cons, hd] at hc
    obtain rfl := Option.some.inj hc
    exact hchar

theorem namesIn_joinTexts (hspells : ∀ t ∈ ts, t.kind.Spells t.text)
    (hchain : ts.IsChain Adjacent) (hkinds : ∀ t ∈ ts, t.kind.isOperand ∨ IsJoint t) :
    namesIn (joinTexts ts).toList =
      (ts.filter fun t => t.kind = .identifier).map Token.text := by
  induction ts with
  | nil => rfl
  | cons t ts ih =>
    obtain ⟨hnext, hlater⟩ := List.isChain_cons.mp hchain
    obtain ⟨ht, hts⟩ := List.forall_mem_cons.mp hspells
    obtain ⟨hkind, hothers⟩ := List.forall_mem_cons.mp hkinds
    have hrest := ih hts hlater hothers
    rw [toList_joinTexts_cons]
    rcases hkind with hoperand | hjoint
    · have hhead := head_joinTexts hts fun u hu =>
        (hnext u hu).elim And.right fun h => absurd hoperand h.1.not_isOperand
      rw [namesIn_append _ hhead, hrest, namesIn_of_operand hoperand ht]
      by_cases hname : t.kind = .identifier
      · simp [hname]
      · simp [hname]
    · obtain ⟨o, hk, -⟩ := hjoint
      have hname : ¬ t.kind = .identifier := by rw [hk]; exact Kind.noConfusion
      have hnone : ∀ c ∈ t.text.toList, isIdentifierChar c = false := by
        rw [text_of_operator hk ht]
        exact fun c hc => (text_char_of_operator o c hc).1
      rw [namesIn_append_of_none hnone, hrest, List.filter_cons_of_neg (by simpa using hname)]

/-- The names in the text of a phrase are its identifiers. -/
theorem IsPhrase.namesIn_joinTexts (h : IsPhrase ts) (hspells : ∀ t ∈ ts, t.kind.Spells t.text) :
    namesIn (joinTexts ts).toList =
      (ts.filter fun t => t.kind = .identifier).map Token.text :=
  CText.namesIn_joinTexts hspells h.chain h.kinds

end CText

/-! ## The identifiers of an expression are the variables that it uses -/

theorem Chain.filter_tokensWith {p : Kind → Prop} {α : Type} {q : Token → Bool}
    {f g : α → List Token} (hitem : ∀ a, (f a).filter q = g a)
    (hoperator : ∀ t : TokenOf p, q t.1 = false) (c : Chain p α) :
    (c.tokensWith f).filter q = c.operands.flatMap g := by
  induction c with
  | last a =>
    show (f a).filter q = [a].flatMap g
    rw [hitem, List.flatMap_singleton]
  | link a operator rest ih =>
    show (f a ++ operator.1 :: rest.tokensWith f).filter q = (a :: rest.operands).flatMap g
    rw [List.filter_append, hitem, List.filter_cons_of_neg (by simp [hoperator operator]), ih,
      List.flatMap_cons]

theorem TokenOf.not_identifier {p : Kind → Bool} (hp : p .identifier = false) (t : TokenOf (p ·)) :
    decide (t.1.kind = .identifier) = false :=
  decide_eq_false (t.kind_ne hp)

theorem Unary.filter_tokens (u : Unary) :
    (u.tokens.filter fun t => t.kind = .identifier) = u.uses := by
  obtain ⟨sign, operand⟩ := u
  have hsign : ((leafTokens sign.toList).filter fun t => t.kind = .identifier) = [] := by
    refine List.filter_eq_nil_iff.mpr fun t ht => ?_
    obtain ⟨leaf, -, rfl⟩ := List.mem_map.mp ht
    simpa using TokenOf.kind_ne (p := Kind.isSign) leaf rfl
  show List.filter _ (leafTokens sign.toList ++ operand.tokens) = operand.uses
  rw [List.filter_append, hsign, List.nil_append]
  cases operand with
  | number digits => exact List.filter_cons_of_neg (by simpa using digits.kind_ne Kind.noConfusion)
  | name t => exact List.filter_cons_of_pos (decide_eq_true t.2)

theorem Expression.filter_tokens (e : Expression) :
    (e.tokens.filter fun t => t.kind = .identifier) = e.uses :=
  Chain.filter_tokensWith
    (Chain.filter_tokensWith Unary.filter_tokens fun t => t.not_identifier rfl)
    (fun t => t.not_identifier rfl) e

theorem Comparison.filter_tokens (c : Comparison) :
    (c.tokens.filter fun t => t.kind = .identifier) = c.uses := by
  have hrest := c.rest.filter_tokensWith Expression.filter_tokens fun t => t.not_identifier rfl
  rw [tokens, List.filter_append, List.filter_cons_of_neg (by simp [c.operator.not_identifier rfl]),
    hrest, Expression.filter_tokens, uses]

theorem Expression.namesIn_joinTexts (e : Expression)
    (hspells : ∀ t ∈ e.tokens, t.kind.Spells t.text) :
    namesIn (joinTexts e.tokens).toList = e.uses.map Token.text := by
  rw [(CText.isPhrase_expression e).namesIn_joinTexts hspells, e.filter_tokens]

theorem Comparison.namesIn_joinTexts (c : Comparison)
    (hspells : ∀ t ∈ c.tokens, t.kind.Spells t.text) :
    namesIn (joinTexts c.tokens).toList = c.uses.map Token.text := by
  rw [(CText.isPhrase_comparison c).namesIn_joinTexts hspells, c.filter_tokens]

/-! ## Names in lines -/

namespace Line

/-- The variables in the expression of a line. -/
def uses : Line → List String
  | printValue value | assign _ value | opening _ value => namesIn value.toList
  | _ => []

/-- The variable that a line gives a value. -/
def target? : Line → Option String
  | assign name _ | input name => some name
  | _ => none

/-- The variables that occur in a line of a statement. -/
def mentioned (line : Line) : List String := line.uses ++ line.target?.toList

/-- The label that a line is. -/
def label? : Line → Option String
  | label name => some name
  | _ => none

/-- The label that a line jumps to. -/
def jump? : Line → Option String
  | jump name => some name
  | _ => none

/-- The variables in each expression are known, or are given a value on a line before. -/
def Assigned (known : List String) : List Line → Prop
  | [] => True
  | line :: lines => (∀ v ∈ line.uses, v ∈ known) ∧ Assigned (known ++ line.target?.toList) lines

variable {known known' : List String} {lines lines' : List Line}

theorem Assigned.mono (h : Assigned known lines) (hsub : known ⊆ known') :
    Assigned known' lines := by
  induction lines generalizing known known' with
  | nil => trivial
  | cons line lines ih =>
    refine ⟨fun v hv => hsub (h.1 v hv), ih h.2 fun v hv => ?_⟩
    exact List.mem_append.mpr ((List.mem_append.mp hv).imp_left fun hmem => hsub hmem)

/-- The first line in which a variable occurs gives it a value and does not use it. -/
theorem Assigned.exists_first {v : String} (h : Assigned known lines) (hv : v ∉ known)
    (hoccurs : ∃ line ∈ lines, v ∈ line.mentioned) :
    ∃ before line behind, lines = before ++ line :: behind ∧
      (∀ l ∈ before, v ∉ l.mentioned) ∧ v ∉ line.uses ∧ line.target? = some v := by
  induction lines generalizing known with
  | nil =>
    obtain ⟨line, hline, -⟩ := hoccurs
    cases hline
  | cons line lines ih =>
    by_cases hfirst : v ∈ line.mentioned
    · have huses : v ∉ line.uses := fun hmem => hv (h.1 v hmem)
      have htarget := (List.mem_append.mp hfirst).resolve_left huses
      exact ⟨[], line, lines, rfl, List.forall_mem_nil _, huses, Option.mem_toList.mp htarget⟩
    · obtain ⟨found, hmem, hfound⟩ := hoccurs
      have hlater : found ∈ lines := by
        rcases List.mem_cons.mp hmem with rfl | hmem
        · exact absurd hfound hfirst
        · exact hmem
      have hnew : v ∉ known ++ line.target?.toList := fun hmem =>
        (List.mem_append.mp hmem).elim hv fun hmem => hfirst (List.mem_append_right _ hmem)
      obtain ⟨before, l, behind, rfl, hbefore, hl⟩ := ih h.2 hnew ⟨found, hlater, hfound⟩
      exact ⟨line :: before, l, behind, rfl, List.forall_mem_cons.mpr ⟨hfirst, hbefore⟩, hl⟩

/-- Behind the line that tries to read a number stand the three others of its statement. -/
def InputsWhole (lines : List Line) : Prop :=
  ∀ before name behind, lines = before ++ .input name :: behind →
    ∃ rest, behind = .assign name "0" :: .skip :: .closing :: rest

theorem InputsWhole.append (h : InputsWhole lines) (h' : InputsWhole lines') :
    InputsWhole (lines ++ lines') := by
  intro before name behind heq
  rcases List.append_eq_append_iff.mp heq with ⟨front, rfl, hlines'⟩ | ⟨front, hlines, hbehind⟩
  · exact h' front name behind hlines'
  · cases front with
    | nil =>
      obtain rfl := (List.append_nil before).symm.trans hlines.symm
      exact h' [] name behind hbehind.symm
    | cons line front =>
      obtain ⟨rfl, rfl⟩ := List.cons.inj hbehind
      obtain ⟨rest, rfl⟩ := h before name front hlines
      exact ⟨rest ++ lines', rfl⟩

theorem inputsWhole_of_none (h : ∀ line ∈ lines, ∀ name, line ≠ .input name) :
    InputsWhole lines := by
  rintro before name behind rfl
  exact absurd rfl (h (.input name) (List.mem_append_right _ List.mem_cons_self) name)

theorem inputsWhole_input (name : String) :
    InputsWhole [.input name, .assign name "0", .skip, .closing] := by
  intro before other behind heq
  match before with
  | [] =>
    obtain ⟨hname, rfl⟩ := List.cons.inj heq
    obtain rfl := Line.input.inj hname
    exact ⟨[], rfl⟩
  | [_] | [_, _] | [_, _, _] =>
    simp at heq
  | _ :: _ :: _ :: _ :: before =>
    simp at heq

end Line

/-! ## Names in the lines of a program -/

/-- Every variable that is used is known, or was given a value before. -/
def UsesKnown (known : List String) (ms : List Mention) : Prop :=
  ∀ before t after, ms = before ++ .use t :: after →
    t.text ∈ known ++ before.filterMap Mention.target?

namespace UsesKnown

variable {known : List String} {ms ns : List Mention}

theorem left (h : UsesKnown known (ms ++ ns)) : UsesKnown known ms := by
  rintro before t after rfl
  exact h before t (after ++ ns) (by rw [List.append_assoc, List.cons_append])

theorem right (h : UsesKnown known (ms ++ ns)) :
    UsesKnown (known ++ ms.filterMap Mention.target?) ns := by
  rintro before t after rfl
  rw [List.append_assoc, ← List.filterMap_append]
  exact h (ms ++ before) t after (List.append_assoc _ _ _).symm

/-- The variables that are used before any is given a value are known. -/
theorem mem_of_uses {ts : List Token} (h : UsesKnown known (ts.map .use ++ ns)) :
    ∀ v ∈ ts.map Token.text, v ∈ known := by
  intro v hv
  obtain ⟨t, ht, rfl⟩ := List.mem_map.mp hv
  obtain ⟨front, rest, rfl⟩ := List.append_of_mem ht
  have hmem := h (front.map .use) t (rest.map .use ++ ns) (by simp)
  rwa [filterMap_target?_uses, List.append_nil] at hmem

end UsesKnown

variable {known : List String} {rest : List Line}

theorem Form.assigned_asLines (form : Form) (hspells : ∀ t ∈ form.tokens, t.kind.Spells t.text)
    (h : UsesKnown known form.mentions)
    (hrest : Line.Assigned (known ++ form.mentions.filterMap Mention.target?) rest) :
    Line.Assigned known (form.asLines ++ rest) := by
  cases form with
  | printString | label | jump =>
    refine ⟨List.forall_mem_nil _, ?_⟩
    exact hrest
  | printValue word value =>
    have hvalue := value.namesIn_joinTexts fun t ht => hspells t (List.mem_cons_of_mem _ ht)
    have huses : UsesKnown known (value.uses.map .use ++ []) := by
      rw [List.append_nil]
      exact h
    refine ⟨fun v hv => huses.mem_of_uses v (hvalue ▸ hv), ?_⟩
    rwa [Form.mentions, filterMap_target?_uses] at hrest
  | assign word name equals value =>
    have hvalue := value.namesIn_joinTexts fun t ht => hspells t (by simp [Form.tokens, ht])
    refine ⟨fun v hv => UsesKnown.mem_of_uses h v (hvalue ▸ hv), ?_⟩
    rwa [Form.mentions, List.filterMap_append, filterMap_target?_uses] at hrest
  | input word name =>
    -- the variable is given a value by two of the four lines
    have hknown : known ++ [name.1.text] ⊆ known ++ [name.1.text] ++ [name.1.text] :=
      List.subset_append_left _ _
    refine ⟨List.forall_mem_nil _, List.forall_mem_nil _, List.forall_mem_nil _,
      List.forall_mem_nil _, ?_⟩
    simp only [Line.target?, Option.toList_some, Option.toList_none, List.append_nil]
    exact Line.Assigned.mono hrest hknown

/-- In the lines of a program every variable is given a value before it is used. -/
theorem Program.assigned_asLines (p : Program) (hspells : ∀ t ∈ p.tokens, t.kind.Spells t.text)
    (h : UsesKnown known p.mentions) (hrest : Line.Assigned (known ++ p.targets) rest) :
    Line.Assigned known (p.asLines ++ rest) := by
  rw [Program.targets] at hrest
  induction p using Program.induction generalizing known rest with
  | nil =>
    rw [Program.asLines]
    rwa [Program.mentions, List.filterMap_nil, List.append_nil] at hrest
  | simple form ends later ih =>
    rw [Program.tokens] at hspells
    rw [Program.mentions] at h hrest
    rw [List.filterMap_append, ← List.append_assoc] at hrest
    rw [Program.asLines, List.append_assoc]
    exact form.assigned_asLines (fun t ht => hspells t (by simp [ht])) h.left
      (ih (fun t ht => hspells t (by simp [ht])) h.right hrest)
  | block b head body foot later ihbody ihlater =>
    rw [Program.tokens] at hspells
    rw [Program.mentions, List.append_assoc] at h
    rw [Program.mentions, List.filterMap_append, List.filterMap_append, filterMap_target?_uses,
      List.nil_append, ← List.append_assoc] at hrest
    have htest := head.test.namesIn_joinTexts fun t ht =>
      hspells t (by simp [BlockHead.tokens, ht])
    have hbody : UsesKnown known (body.mentions ++ later.mentions) := by
      have hright := h.right
      rwa [filterMap_target?_uses, List.append_nil] at hright
    rw [Program.asLines, List.cons_append, List.append_assoc, List.cons_append]
    refine ⟨fun v hv => UsesKnown.mem_of_uses h v (htest ▸ hv), ?_⟩
    simp only [Line.target?, Option.toList_none, List.append_nil]
    refine ihbody (fun t ht => hspells t (by simp [ht])) hbody.left ⟨List.forall_mem_nil _, ?_⟩
    simp only [Line.target?, Option.toList_none, List.append_nil]
    exact ihlater (fun t ht => hspells t (by simp [ht])) hbody.right hrest

theorem Program.inputsWhole_asLines (p : Program) : Line.InputsWhole p.asLines := by
  induction p using Program.induction with
  | nil =>
    rw [Program.asLines]
    exact Line.inputsWhole_of_none (List.forall_mem_nil _)
  | simple form ends later ih =>
    rw [Program.asLines]
    refine Line.InputsWhole.append ?_ ih
    cases form with
    | input word name => exact Line.inputsWhole_input _
    | _ => exact Line.inputsWhole_of_none (by simp [Form.asLines])
  | block b head body foot later ihbody ihlater =>
    rw [Program.asLines]
    have hopening : Line.InputsWhole [.opening b (joinTexts head.test.tokens)] :=
      Line.inputsWhole_of_none (by simp)
    have hclosing : Line.InputsWhole [.closing] := Line.inputsWhole_of_none (by simp)
    exact hopening.append (ihbody.append (hclosing.append ihlater))

/-- The variables that the lines of a program give values are those that the program does. -/
theorem Program.mem_targets_iff {p : Program} {v : String} :
    v ∈ p.targets ↔ v ∈ p.asLines.filterMap Line.target? := by
  rw [Program.targets]
  induction p using Program.induction with
  | nil =>
    rw [Program.mentions, Program.asLines]
    rfl
  | simple form ends later ih =>
    rw [Program.mentions, Program.asLines, List.filterMap_append, List.filterMap_append,
      List.mem_append, List.mem_append, ih]
    refine or_congr_left ?_
    -- what an `INPUT` gives a value stands in two of its lines
    cases form with
    | input | printString | label | jump =>
      simp [Form.mentions, Form.asLines, Line.target?, Mention.target?]
    | printValue | assign =>
      simp [Form.mentions, Form.asLines, Line.target?, Mention.target?]
  | block b head body foot later ihbody ihlater =>
    rw [Program.mentions, Program.asLines, List.filterMap_append, List.filterMap_append,
      filterMap_target?_uses, List.nil_append, List.filterMap_cons_none rfl, List.filterMap_append,
      List.filterMap_cons_none rfl, List.mem_append, List.mem_append, ihbody, ihlater]

/-- What is told by each statement alone, and not by conditions, is told by the lines of a program
in the same order. -/
theorem Program.filterMap_asLines {f : Line → Option String} {g : Mention → Option String}
    (hform : ∀ form : Form, form.asLines.filterMap f = form.mentions.filterMap g)
    (hopening : ∀ b test, f (.opening b test) = none) (hclosing : f .closing = none)
    (huse : ∀ t, g (.use t) = none) (p : Program) :
    p.asLines.filterMap f = p.mentions.filterMap g := by
  induction p using Program.induction with
  | nil =>
    rw [Program.mentions, Program.asLines]
    rfl
  | simple form ends later ih =>
    rw [Program.mentions, Program.asLines, List.filterMap_append, List.filterMap_append, hform, ih]
  | block b head body foot later ihbody ihlater =>
    have huses : (head.test.uses.map Mention.use).filterMap g = [] :=
      List.filterMap_eq_nil_iff.mpr fun m hm => by
        obtain ⟨t, -, rfl⟩ := List.mem_map.mp hm
        exact huse t
    rw [Program.mentions, Program.asLines, List.filterMap_append, List.filterMap_append, huses,
      List.nil_append, List.filterMap_cons_none (hopening _ _), List.filterMap_append,
      List.filterMap_cons_none hclosing, ihbody, ihlater]

/-- The labels in the lines of a program are those of the program. -/
theorem Program.filterMap_label? (p : Program) :
    p.asLines.filterMap Line.label? = p.labels.map Prod.fst := by
  rw [Program.labels, List.map_filterMap]
  refine p.filterMap_asLines (fun form => ?_) (fun _ _ => rfl) rfl fun _ => rfl
  cases form with
  | printValue | assign => simp [Form.mentions, Form.asLines, Line.label?, Mention.label?]
  | _ => rfl

/-- The jumps in the lines of a program are those of the program. -/
theorem Program.filterMap_jump? (p : Program) :
    p.asLines.filterMap Line.jump? = p.jumps.map Prod.fst := by
  rw [Program.jumps, List.map_filterMap]
  refine p.filterMap_asLines (fun form => ?_) (fun _ _ => rfl) rfl fun _ => rfl
  cases form with
  | printValue | assign => simp [Form.mentions, Form.asLines, Line.jump?, Mention.jump?]
  | _ => rfl

end PocketBasic

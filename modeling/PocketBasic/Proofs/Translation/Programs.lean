import PocketBasic.Proofs.Translation.Phrases

/-!
# Reading programs

A program is read as its tree says: its mentions are heeded in their order, and the lines
of its translation are added to the body (`reads_program`).  The proof is an induction over
programs in which the body of a block is a program in its own right, read with the block on
the stack.

A block differs from a program in one point only.  The line that opens it is finished when
the first token behind its line ends is seen, so a reading of the body is preceded by the
text that is still due (`Reads.opening`).
-/

namespace PocketBasic

variable {bs : List Block} {x : String}

/-! ## Simple statements -/

theorem Primary.exists_tokens_eq_cons (e : Primary) :
    ∃ t ts, e.tokens = t :: ts ∧ (t.kind.isSign ∨ t.kind.isOperand) := by
  cases e with
  | number digits => exact ⟨digits.1, [], rfl, .inr (by rw [digits.2]; rfl)⟩
  | name t => exact ⟨t.1, [], rfl, .inr (by rw [t.2]; rfl)⟩

theorem Unary.exists_tokens_eq_cons (u : Unary) :
    ∃ t ts, u.tokens = t :: ts ∧ (t.kind.isSign ∨ t.kind.isOperand) := by
  obtain ⟨sign, operand⟩ := u
  cases sign with
  | none => exact operand.exists_tokens_eq_cons
  | some sign => exact ⟨sign.1, operand.tokens, rfl, .inl sign.2⟩

theorem Chain.exists_tokens_eq_cons {p : Kind → Prop} {α : Type} {f : α → List Token}
    {q : Token → Prop} (h : ∀ a, ∃ t ts, f a = t :: ts ∧ q t) (c : Chain p α) :
    ∃ t ts, c.tokensWith f = t :: ts ∧ q t := by
  cases c with
  | last a => exact h a
  | link a operator rest =>
    obtain ⟨t, ts, hts, hq⟩ := h a
    refine ⟨t, ts ++ operator.1 :: rest.tokensWith f, ?_, hq⟩
    rw [Chain.tokensWith, hts, List.cons_append]

/-- An expression begins with an operand or its sign. -/
theorem Expression.exists_tokens_eq_cons (e : Expression) :
    ∃ t ts, e.tokens = t :: ts ∧ (t.kind.isSign ∨ t.kind.isOperand) :=
  Chain.exists_tokens_eq_cons (Chain.exists_tokens_eq_cons Unary.exists_tokens_eq_cons) e

theorem reads_printed (value : Expression) :
    Reads ⟨⟨.printItem, bs⟩, x⟩ value.tokens (value.uses.map .use)
      ("printf(\"%.2f\\n\", (float)(" ++ joinTexts value.tokens) ⟨⟨.operator .printed, bs⟩, x⟩ := by
  have hvalue : Reads ⟨⟨.operand .printed, bs⟩, x⟩ value.tokens (value.uses.map .use)
      (joinTexts value.tokens) ⟨⟨.operator .printed, bs⟩, x⟩ := reads_expression .printed value
  obtain ⟨t, ts, hts, hk⟩ := value.exists_tokens_eq_cons
  rw [hts] at hvalue ⊢
  refine .of_settles (settles_value ?_) hvalue
  intro hstring
  rw [hstring] at hk
  rcases hk with hk | hk <;> cases hk

theorem reads_printedEnds (ends : LineEnds) :
    Reads ⟨⟨.operator .printed, bs⟩, x⟩ ends.tokens [] ("));" ++ "\n")
      ⟨⟨.blankLines false, bs⟩, x⟩ := by
  have hsettles : Settles ⟨⟨.operator .printed, bs⟩, x⟩ ends.first.1.kind [] ("));" ++ "\n")
      ⟨⟨.lineEnd false, bs⟩, x⟩ := by
    rw [ends.first.2]
    exact settles_printed
  exact .of_settles hsettles (reads_lineEnds false ends)

theorem reads_assignedEnds (t : Token) (ends : LineEnds) :
    Reads ⟨⟨.operator .assigned, bs⟩, t.text⟩ ends.tokens [.assign t] (";" ++ "\n")
      ⟨⟨.blankLines false, bs⟩, ""⟩ := by
  have hsettles : Settles ⟨⟨.operator .assigned, bs⟩, t.text⟩ ends.first.1.kind [.assign t]
      (";" ++ "\n") ⟨⟨.lineEnd false, bs⟩, ""⟩ := by
    rw [ends.first.2]
    exact settles_assigned t
  exact .of_settles hsettles (reads_lineEnds false ends)

/-- A simple statement with its line ends. -/
theorem reads_simple (form : Form) (ends : LineEnds) :
    Reads ⟨⟨.statement, bs⟩, ""⟩ (form.tokens ++ ends.tokens) form.mentions (unlines form.lines)
      ⟨⟨.blankLines false, bs⟩, ""⟩ := by
  have hends : Reads ⟨⟨.lineEnd false, bs⟩, ""⟩ ends.tokens [] "" ⟨⟨.blankLines false, bs⟩, ""⟩ :=
    reads_lineEnds false ends
  cases form with
  | printString word text =>
    have h := (reads_word word rfl).cons ((reads_string text).cons hends)
    simpa [Form.tokens, Form.mentions, Form.lines, unlines_singleton, Keyword.written] using h
  | printValue word value =>
    have hword : Reads ⟨⟨.statement, bs⟩, ""⟩ [word.1] [] "" ⟨⟨.printItem, bs⟩, ""⟩ :=
      reads_word word rfl
    have h := hword.cons ((reads_printed value).append (reads_printedEnds ends))
    simpa [Form.tokens, Form.mentions, Form.lines, unlines_singleton, Keyword.written,
      String.append_assoc] using h
  | label word name =>
    have h := (reads_word word rfl).cons ((reads_labelName name).append hends)
    simpa [Form.tokens, Form.mentions, Form.lines, unlines_singleton, Keyword.written] using h
  | jump word name =>
    have h := (reads_word word rfl).cons ((reads_jumpName name).append hends)
    simpa [Form.tokens, Form.mentions, Form.lines, unlines_singleton, Keyword.written] using h
  | assign word name equals value =>
    have hword : Reads ⟨⟨.statement, bs⟩, ""⟩ [word.1] [] "" ⟨⟨.assignedName, bs⟩, ""⟩ :=
      reads_word word rfl
    have h := hword.cons ((reads_assignedName name).cons ((reads_equalsSign equals).cons
      ((reads_expression .assigned value).append (reads_assignedEnds name.1 ends))))
    simpa [Form.tokens, Form.mentions, Form.lines, unlines_singleton, Keyword.written,
      String.append_assoc] using h
  | input word name =>
    have h := (reads_word word rfl).cons ((reads_inputName name).append hends)
    simpa [Form.tokens, Form.mentions, Form.lines, Keyword.written] using h

/-! ## Blocks -/

theorem reads_opener {b : Block} (opener : Terminal (.keyword b.opener)) :
    Reads ⟨⟨.opener b, bs⟩, x⟩ [opener.1] [] "" ⟨⟨.lineEnd true, b :: bs⟩, x⟩ := by
  refine .of_kind opener.2 rfl (if_pos rfl)
    (fun d hd => useFault?_of_place (by simp [hd]) (by simp [hd])) ?_
  rintro ⟨names, listing, control, target⟩ hd
  cases hd
  show Except.ok (Draft.mk names listing _ _) = Except.ok (Draft.mk names (listing.emit "") _ _)
  rw [Listing.emit_empty]
  rfl

theorem reads_head {b : Block} (head : BlockHead b) :
    Reads ⟨⟨.statement, bs⟩, x⟩ head.tokens (head.test.uses.map .use)
      (b.cWord ++ "(" ++ joinTexts head.test.tokens) ⟨⟨.blankLines true, b :: bs⟩, x⟩ := by
  obtain ⟨word, test, opener, ends⟩ := head
  have hopener : Reads ⟨⟨.operator (.compared b), bs⟩, x⟩ [opener.1] [] ""
      ⟨⟨.lineEnd true, b :: bs⟩, x⟩ := by
    have hsettles : Settles ⟨⟨.operator (.compared b), bs⟩, x⟩ opener.1.kind [] ""
        ⟨⟨.opener b, bs⟩, x⟩ := by
      rw [opener.2]
      exact settles_condition b
    exact .of_settles hsettles (reads_opener opener)
  have hword : Reads ⟨⟨.statement, bs⟩, x⟩ [word.1] [] (b.cWord ++ "(")
      ⟨⟨.operand (.tested b), bs⟩, x⟩ := by
    cases b <;> exact reads_word word rfl
  have h := hword.cons ((reads_comparison b test).append (hopener.cons (reads_lineEnds true ends)))
  simpa [BlockHead.tokens, String.append_assoc] using h

theorem reads_foot {b : Block} (foot : BlockEnd b) :
    Reads ⟨⟨.statement, b :: bs⟩, x⟩ foot.tokens [] ("\x7d" ++ "\n")
      ⟨⟨.blankLines false, bs⟩, x⟩ := by
  obtain ⟨closer, ends⟩ := foot
  have hcloser : Reads ⟨⟨.statement, b :: bs⟩, x⟩ [closer.1] [] ("\x7d" ++ "\n")
      ⟨⟨.lineEnd false, bs⟩, x⟩ := by
    cases b <;> exact reads_word closer rfl
  exact hcloser.cons (reads_lineEnds false ends)

/-- The line that opens a block is finished before the first token of the block. -/
theorem Reads.opening {t : Token} {ts : List Token} {ms : List Mention} {text : String}
    {s : Stance} (ht : t.kind ≠ .newline)
    (h : Reads ⟨⟨.blankLines false, bs⟩, x⟩ (t :: ts) ms text s) :
    Reads ⟨⟨.blankLines true, bs⟩, x⟩ (t :: ts) ms (")\x7b" ++ "\n" ++ text) s := by
  refine .of_settle ?_ h
  rintro ⟨names, listing, control, target⟩ hd
  cases hd
  have hopen : Place.settle t.kind (.blankLines true) = .statement := if_neg ht
  have hclosed : Place.settle t.kind (.blankLines false) = .statement := if_neg ht
  simp only [Draft.settle, Control.settle, Draft.move, hopen, hclosed]
  rfl

/-! ## Programs -/

/-- A simple statement begins with a keyword. -/
theorem Form.exists_tokens_eq_cons (form : Form) :
    ∃ t ts, form.tokens = t :: ts ∧ t.kind ≠ .newline := by
  cases form with
  | printString word | printValue word | label word | jump word | assign word | input word =>
    exact ⟨word.1, _, rfl, word.kind_ne Kind.noConfusion⟩

/-- A program that is not empty does not begin with a line end. -/
theorem Program.exists_tokens_cons (statement : Statement) (rest : List Statement) :
    ∃ t ts, Program.tokens (statement :: rest) = t :: ts ∧ t.kind ≠ .newline := by
  cases statement with
  | simple form ends =>
    obtain ⟨t, ts, hts, hk⟩ := form.exists_tokens_eq_cons
    refine ⟨t, ts ++ ends.tokens ++ tokens rest, ?_, hk⟩
    rw [tokens, hts, List.cons_append, List.cons_append]
  | block b head body foot =>
    refine ⟨head.word.1, _, by
      rw [tokens, BlockHead.tokens, List.cons_append, List.cons_append, List.cons_append],
      head.word.kind_ne Kind.noConfusion⟩

/-- A program does not begin with a line end, nor does it with a token of another kind
behind it. -/
theorem Program.exists_tokens_eq_cons (p : Program) {t : Token} (ht : t.kind ≠ .newline)
    (ts : List Token) :
    ∃ t' ts', p.tokens ++ t :: ts = t' :: ts' ∧ t'.kind ≠ .newline := by
  cases p with
  | nil => exact ⟨t, ts, by rw [tokens, List.nil_append], ht⟩
  | cons statement rest =>
    obtain ⟨t', ts', hts, hk⟩ := exists_tokens_cons statement rest
    exact ⟨t', ts' ++ t :: ts, by rw [hts, List.cons_append], hk⟩

/-- A statement may begin behind the line ends of another one. -/
theorem Reads.following {t : Token} {ts : List Token} {ms : List Mention} {text : String}
    {s : Stance} (ht : t.kind ≠ .newline) (h : Reads ⟨⟨.statement, bs⟩, x⟩ (t :: ts) ms text s) :
    Reads ⟨⟨.blankLines false, bs⟩, x⟩ (t :: ts) ms text s := by
  have hfollowing := h.of_settles (settles_statement ht)
  rwa [List.nil_append, String.empty_append] at hfollowing

/-- A program is read as its tree says. -/
theorem reads_program (p : Program) (bs : List Block) :
    Reads ⟨⟨.blankLines false, bs⟩, ""⟩ p.tokens p.mentions (unlines p.lines)
      ⟨⟨.blankLines false, bs⟩, ""⟩ := by
  induction p using Program.induction generalizing bs with
  | nil =>
    rw [Program.tokens, Program.mentions, Program.lines]
    exact .nil _
  | simple form ends rest ih =>
    have hsimple : Reads ⟨⟨.blankLines false, bs⟩, ""⟩ (form.tokens ++ ends.tokens) form.mentions
        (unlines form.lines) ⟨⟨.blankLines false, bs⟩, ""⟩ := by
      have hform : Reads ⟨⟨.statement, bs⟩, ""⟩ (form.tokens ++ ends.tokens) form.mentions
          (unlines form.lines) ⟨⟨.blankLines false, bs⟩, ""⟩ := reads_simple form ends
      obtain ⟨t, ts, hts, hk⟩ := form.exists_tokens_eq_cons
      rw [hts, List.cons_append] at hform ⊢
      exact hform.following hk
    rw [Program.tokens, Program.mentions, Program.lines, unlines_append]
    exact hsimple.append (ih bs)
  | block b head body foot rest ihbody ihrest =>
    have hcloser : foot.closer.1.kind ≠ .newline := foot.closer.kind_ne Kind.noConfusion
    have hhead : Reads ⟨⟨.blankLines false, bs⟩, ""⟩ head.tokens (head.test.uses.map .use)
        (b.cWord ++ "(" ++ joinTexts head.test.tokens) ⟨⟨.blankLines true, b :: bs⟩, ""⟩ :=
      (reads_head head).following (head.word.kind_ne Kind.noConfusion)
    have hfoot : Reads ⟨⟨.blankLines false, b :: bs⟩, ""⟩ foot.tokens [] ("\x7d" ++ "\n")
        ⟨⟨.blankLines false, bs⟩, ""⟩ :=
      (reads_foot foot).following hcloser
    -- The text of the body goes behind the end of the line that opens the block.
    have hbody : Reads ⟨⟨.blankLines true, b :: bs⟩, ""⟩ (body.tokens ++ foot.tokens)
        (body.mentions ++ []) (")\x7b" ++ "\n" ++ (unlines body.lines ++ ("\x7d" ++ "\n")))
        ⟨⟨.blankLines false, bs⟩, ""⟩ := by
      have hinner := (ihbody (b :: bs)).append hfoot
      obtain ⟨t, ts, hts, hk⟩ := body.exists_tokens_eq_cons hcloser foot.ends.tokens
      rw [BlockEnd.tokens, hts] at hinner ⊢
      exact hinner.opening hk
    have h := hhead.append (hbody.append (ihrest bs))
    rw [Program.tokens, Program.mentions, Program.lines]
    simpa [unlines_cons, unlines_append, String.append_assoc] using h

/-! ## Whole sources -/

/-- The end of the input is read behind a complete program. -/
theorem reads_endOfInput (t : Terminal .endOfInput) :
    Reads ⟨⟨.statement, []⟩, x⟩ [t.1] [] "" ⟨⟨.statement, []⟩, x⟩ := by
  rintro ⟨names, listing, control, target⟩ hd
  cases hd
  have hsettled : (Draft.mk names listing ⟨.statement, []⟩ target).settle t.1.kind =
      ⟨names, listing, ⟨.statement, []⟩, target⟩ := Draft.settle_of_settled rfl
  rw [Draft.readAll, Draft.read, hsettled, Draft.check, t.2]
  show Except.ok (Draft.mk names listing _ _) = Except.ok (Draft.mk names (listing.emit "") _ _)
  rw [Listing.emit_empty]

/-- What stands behind a line end may stand at the beginning. -/
theorem Reads.at_beginning {t : Token} {ts : List Token} {ms : List Mention} {text : String}
    {s : Stance} (ht : t.kind ≠ .newline)
    (h : Reads ⟨⟨.blankLines false, bs⟩, x⟩ (t :: ts) ms text s) :
    Reads ⟨⟨.beginning, bs⟩, x⟩ (t :: ts) ms text s := by
  rw [← String.empty_append (s := text)]
  refine .of_settle ?_ h
  rintro ⟨names, listing, control, target⟩ hd
  cases hd
  have hbeginning : Place.settle t.kind .beginning = .statement := if_neg ht
  have hblank : Place.settle t.kind (.blankLines false) = .statement := if_neg ht
  simp only [Draft.settle, Control.settle, Draft.move, hbeginning, hblank, Listing.emit_empty]
  rfl

/-- The tokens of a source are read as its tree says. -/
theorem reads_source (blanks : List (Terminal .newline)) (p : Program)
    (last : Terminal .endOfInput) :
    Reads ⟨.start, ""⟩ (leafTokens blanks ++ (p.tokens ++ [last.1])) p.mentions (unlines p.lines)
      ⟨⟨.statement, []⟩, ""⟩ := by
  have hlast : last.1.kind ≠ .newline := last.kind_ne Kind.noConfusion
  have hend : Reads ⟨⟨.blankLines false, []⟩, ""⟩ [last.1] [] "" ⟨⟨.statement, []⟩, ""⟩ :=
    (reads_endOfInput last).following hlast
  have hprogram : Reads ⟨⟨.beginning, []⟩, ""⟩ (p.tokens ++ [last.1]) (p.mentions ++ [])
      (unlines p.lines ++ "") ⟨⟨.statement, []⟩, ""⟩ := by
    have hbehind := (reads_program p []).append hend
    obtain ⟨t, ts, hts, hk⟩ := p.exists_tokens_eq_cons hlast []
    rw [hts] at hbehind ⊢
    exact hbehind.at_beginning hk
  have h := (reads_newlines (x := "") .beginning blanks).append hprogram
  rwa [List.nil_append, List.append_nil, String.empty_append, String.append_empty] at h

end PocketBasic

import PocketBasic.Proofs.Translation.Reading

/-!
# Reading the phrases of the grammar

Every phrase of the grammar is read as its tree says: its tokens heed the mentions of the
tree and add the text of the tree to the body, in whatever blocks it stands.  The main
statement is that of programs (`reads_program`); a block is no more than a program
between two phrases.

Some text of a phrase is written only when the token behind the phrase is seen, so the
phrases that are ended by such a token are read together with it: a statement with its
line ends, the condition of a block with the word behind it, and the line ends that open
a block with the first token of the block.
-/

namespace PocketBasic

variable {bs : List Block} {x : String}

/-! ## Expressions -/

theorem reads_sign (p : Purpose) (t : TokenOf (·.isSign)) :
    Reads ⟨⟨.operand p, bs⟩, x⟩ [t.1] [] t.1.text ⟨⟨.signed p, bs⟩, x⟩ := by
  have hk : t.1.kind ≠ .identifier := t.kind_ne rfl
  refine .of_kind rfl rfl ?_ (fun d _ => d.useFault?_of_kind_ne hk) ?_
  · rw [Control.reactSettled]
    exact if_pos t.2
  · rintro ⟨names, listing, control, target⟩ hd
    cases hd
    rfl

/-- The places where an operand may stand. -/
inductive OperandPlace (p : Purpose) : Place → Prop where
  | bare : OperandPlace p (.operand p)
  | signed : OperandPlace p (.signed p)

theorem reads_number {p : Purpose} {place : Place} (h : OperandPlace p place)
    (t : Terminal .number) :
    Reads ⟨⟨place, bs⟩, x⟩ [t.1] [] t.1.text ⟨⟨.operator p, bs⟩, x⟩ := by
  have hk : t.1.kind ≠ .identifier := t.kind_ne Kind.noConfusion
  cases h
  all_goals
    refine .of_kind t.2 rfl rfl (fun d _ => d.useFault?_of_kind_ne hk) ?_
    rintro ⟨names, listing, control, target⟩ hd
    cases hd
    rfl

theorem reads_name {p : Purpose} {place : Place} (h : OperandPlace p place)
    (t : Terminal .identifier) :
    Reads ⟨⟨place, bs⟩, x⟩ [t.1] [.use t.1] t.1.text ⟨⟨.operator p, bs⟩, x⟩ := by
  obtain ⟨t, hk⟩ := t
  rintro ⟨names, listing, control, target⟩ hd
  cases hd
  have hsettled : (Draft.mk names listing ⟨place, bs⟩ target).settle t.kind =
      ⟨names, listing, ⟨place, bs⟩, target⟩ :=
    Draft.settle_of_settled (by cases h <;> rfl)
  have hreact : Control.reactSettled ⟨place, bs⟩ t.kind = .proceed ⟨.operator p, bs⟩ := by
    rw [hk]
    cases h <;> rfl
  rw [Draft.readAll, Draft.read, hsettled, Draft.heedAll, Draft.heed]
  by_cases hdeclared : t.text ∈ names.variableNames
  · have huse : (Draft.mk names listing ⟨place, bs⟩ target).useFault? t = none := by
      rw [Draft.useFault?, hk]
      cases h <;> exact if_pos hdeclared
    rw [Draft.check, hreact, huse, if_pos hdeclared]
    cases h <;> rfl
  · have huse : (Draft.mk names listing ⟨place, bs⟩ target).useFault? t =
        some (.undeclaredVariable t.text) := by
      rw [Draft.useFault?, hk]
      cases h <;> exact if_neg hdeclared
    rw [Draft.check, hreact, huse, if_neg hdeclared]
    rfl

/-- A primary is read at either place of an operand. -/
theorem reads_primary {p : Purpose} {place : Place} (h : OperandPlace p place) (e : Primary) :
    Reads ⟨⟨place, bs⟩, x⟩ e.tokens (e.uses.map .use) (joinTexts e.tokens)
      ⟨⟨.operator p, bs⟩, x⟩ := by
  cases e with
  | number digits =>
    rw [Primary.tokens, joinTexts_singleton]
    exact reads_number h digits
  | name t =>
    rw [Primary.tokens, joinTexts_singleton]
    exact reads_name h t

theorem reads_unary (p : Purpose) (u : Unary) :
    Reads ⟨⟨.operand p, bs⟩, x⟩ u.tokens (u.uses.map .use) (joinTexts u.tokens)
      ⟨⟨.operator p, bs⟩, x⟩ := by
  obtain ⟨sign, operand⟩ := u
  cases sign with
  | none => exact reads_primary .bare operand
  | some t =>
    show Reads _ (t.1 :: operand.tokens) _ (joinTexts (t.1 :: operand.tokens)) _
    rw [joinTexts_cons]
    exact (reads_sign p t).cons (reads_primary .signed operand)

/-- A chain is read if its operands and the operators between them are. -/
theorem reads_chain {p : Kind → Prop} {α : Type} {f g : α → List Token} {s s' : Stance}
    (hitem : ∀ a, Reads s (f a) ((g a).map .use) (joinTexts (f a)) s')
    (hoperator : ∀ t : TokenOf p, Reads s' [t.1] [] t.1.text s) (c : Chain p α) :
    Reads s (c.tokensWith f) ((c.operands.flatMap g).map .use) (joinTexts (c.tokensWith f)) s' := by
  induction c with
  | last a =>
    rw [Chain.operands, List.flatMap_cons, List.flatMap_nil, List.append_nil]
    exact hitem a
  | link a operator rest ih =>
    rw [Chain.operands, List.flatMap_cons, List.map_append, Chain.tokensWith, joinTexts_append,
      joinTexts_cons]
    exact (hitem a).append ((hoperator operator).cons ih)

theorem reads_operator (p : Purpose) {t : Token} (h : t.kind.isArithmetic = true) :
    Reads ⟨⟨.operator p, bs⟩, x⟩ [t] [] t.text ⟨⟨.operand p, bs⟩, x⟩ := by
  have hk : t.kind ≠ .identifier := by
    intro hk
    rw [hk] at h
    cases h
  refine .of_kind rfl ?_ ?_ (fun d _ => d.useFault?_of_kind_ne hk) ?_
  · cases p <;> simp [Place.settle, h]
  · rw [Control.reactSettled]
    exact if_pos h
  · rintro ⟨names, listing, control, target⟩ hd
    cases hd
    rfl

theorem reads_term (p : Purpose) (t : Term) :
    Reads ⟨⟨.operand p, bs⟩, x⟩ t.tokens (t.uses.map .use) (joinTexts t.tokens)
      ⟨⟨.operator p, bs⟩, x⟩ :=
  reads_chain (reads_unary p)
    (fun op => reads_operator p (by rw [Kind.isArithmetic_eq, op.2, Bool.or_true])) t

theorem reads_expression (p : Purpose) (e : Expression) :
    Reads ⟨⟨.operand p, bs⟩, x⟩ e.tokens (e.uses.map .use) (joinTexts e.tokens)
      ⟨⟨.operator p, bs⟩, x⟩ :=
  reads_chain (reads_term p)
    (fun op => reads_operator p (by rw [Kind.isArithmetic_eq, op.2, Bool.true_or])) e

/-- A comparison operator, before the first comparison of a condition or behind it. -/
theorem reads_comparisonOperator {b : Block} {p : Purpose} (hp : p = .tested b ∨ p = .compared b)
    (t : TokenOf (·.isComparison)) :
    Reads ⟨⟨.operator p, bs⟩, x⟩ [t.1] [] t.1.text ⟨⟨.operand (.compared b), bs⟩, x⟩ := by
  have hk : t.1.kind ≠ .identifier := t.kind_ne rfl
  have ht : t.1.kind.isComparison = true := t.2
  have harithmetic := Kind.isArithmetic_of_isComparison ht
  refine .of_kind rfl ?_ ?_ (fun d _ => d.useFault?_of_kind_ne hk) ?_
  · rcases hp with rfl | rfl
    · rfl
    · simp [Place.settle, ht]
  · rcases hp with rfl | rfl
    all_goals simp [Control.reactSettled, Control.reactAtOperator, harithmetic, ht, Control.goTo]
  · rintro ⟨names, listing, control, target⟩ hd
    cases hd
    rfl

theorem reads_comparison (b : Block) (c : Comparison) :
    Reads ⟨⟨.operand (.tested b), bs⟩, x⟩ c.tokens (c.uses.map .use) (joinTexts c.tokens)
      ⟨⟨.operator (.compared b), bs⟩, x⟩ := by
  rw [Comparison.tokens, Comparison.uses, List.map_append, joinTexts_append, joinTexts_cons]
  refine (reads_expression (.tested b) c.first).append
    ((reads_comparisonOperator (.inl rfl) c.operator).cons ?_)
  exact reads_chain (reads_expression (.compared b))
    (fun op => reads_comparisonOperator (.inr rfl) op) c.rest

/-! ## Words, names and line ends -/

/-- What is written for a keyword that stands before a statement. -/
def Keyword.written : Keyword → String
  | .IF => "if("
  | .WHILE => "while("
  | .ENDIF | .ENDWHILE => "\x7d\n"
  | _ => ""

theorem reads_word {k : Keyword} {next : Control} (t : Terminal (.keyword k))
    (hreact : Control.reactSettled ⟨.statement, bs⟩ (.keyword k) = .proceed next) :
    Reads ⟨⟨.statement, bs⟩, x⟩ [t.1] [] k.written ⟨next, x⟩ := by
  have hname : t.1.kind ≠ .identifier := t.kind_ne Kind.noConfusion
  refine .of_kind t.2 rfl hreact (fun d _ => d.useFault?_of_kind_ne hname) ?_
  rintro ⟨names, listing, control, target⟩ hd
  cases hd
  rw [Draft.write, Draft.finish, t.2]
  cases k with
  | IF | WHILE | ENDIF | ENDWHILE => rfl
  | _ => exact congrArg Except.ok (by simp [Draft.move, Keyword.written])

theorem reads_string (t : Terminal .string) :
    Reads ⟨⟨.printItem, bs⟩, x⟩ [t.1] [] ("printf(\"" ++ t.1.text ++ "\\n\");" ++ "\n")
      ⟨⟨.lineEnd false, bs⟩, x⟩ := by
  have hname : t.1.kind ≠ .identifier := t.kind_ne Kind.noConfusion
  refine .of_kind t.2 rfl rfl (fun d _ => d.useFault?_of_kind_ne hname) ?_
  rintro ⟨names, listing, control, target⟩ hd
  cases hd
  rfl

theorem useFault?_of_place {d : Draft} {t : Token} (h : ∀ p, d.control.place ≠ .operand p)
    (h' : ∀ p, d.control.place ≠ .signed p) : d.useFault? t = none := by
  unfold Draft.useFault?
  split
  · exact absurd ‹_› (h _)
  · exact absurd ‹_› (h' _)
  · rfl

theorem reads_labelName (t : Terminal .identifier) :
    Reads ⟨⟨.labelName, bs⟩, x⟩ [t.1] [.label t.1] (t.1.text ++ ":" ++ "\n")
      ⟨⟨.lineEnd false, bs⟩, x⟩ := by
  refine .of_finish t.2 rfl rfl (fun d hd => useFault?_of_place (by simp [hd]) (by simp [hd])) ?_
  rintro ⟨names, listing, control, target⟩ hd
  cases hd
  rw [Draft.write, Draft.finish, Draft.heedAll, Draft.heed, Draft.declareLabel, Draft.declareLabel]
  cases names.labels.lookup t.1.text <;> rfl

theorem reads_jumpName (t : Terminal .identifier) :
    Reads ⟨⟨.jumpName, bs⟩, x⟩ [t.1] [.jump t.1] ("goto " ++ t.1.text ++ ";" ++ "\n")
      ⟨⟨.lineEnd false, bs⟩, x⟩ := by
  refine .of_finish t.2 rfl rfl (fun d hd => useFault?_of_place (by simp [hd]) (by simp [hd])) ?_
  rintro ⟨names, listing, control, target⟩ hd
  cases hd
  rfl

theorem emitInput_eq (d : Draft) (name : String) :
    d.emitInput name = d.emit (unlines ["if(0 == scanf(\"%f\", &" ++ name ++ ")) \x7b",
      name ++ " = 0;", "scanf(\"%*s\");", "\x7d"]) := by
  simp only [Draft.emitInput, Draft.emitLine, Draft.emit, Listing.emit_emit, unlines_cons,
    String.append_assoc]
  rfl

theorem reads_inputName (t : Terminal .identifier) :
    Reads ⟨⟨.inputName, bs⟩, x⟩ [t.1] [.assign t.1]
      (unlines ["if(0 == scanf(\"%f\", &" ++ t.1.text ++ ")) \x7b", t.1.text ++ " = 0;",
        "scanf(\"%*s\");", "\x7d"])
      ⟨⟨.lineEnd false, bs⟩, x⟩ := by
  refine .of_finish t.2 rfl rfl (fun d hd => useFault?_of_place (by simp [hd]) (by simp [hd])) ?_
  rintro ⟨names, listing, control, target⟩ hd
  cases hd
  rw [Draft.write, Draft.finish, Draft.heedAll, Draft.heed]
  simp only [emitInput_eq, Draft.declareVariable]
  split <;> rfl

/-- The name of an assignment is kept until the expression is over. -/
theorem reads_assignedName (t : Terminal .identifier) :
    Reads ⟨⟨.assignedName, bs⟩, x⟩ [t.1] [] "" ⟨⟨.equalsSign, bs⟩, t.1.text⟩ := by
  refine .of_kind t.2 rfl rfl (fun d hd => useFault?_of_place (by simp [hd]) (by simp [hd])) ?_
  rintro ⟨names, listing, control, target⟩ hd
  cases hd
  exact congrArg Except.ok (by simp [Draft.move, Draft.write])

theorem reads_equalsSign (t : Terminal (.operator .assign)) :
    Reads ⟨⟨.equalsSign, bs⟩, x⟩ [t.1] [] (x ++ " = ") ⟨⟨.operand .assigned, bs⟩, x⟩ := by
  refine .of_kind t.2 rfl rfl (fun d hd => useFault?_of_place (by simp [hd]) (by simp [hd])) ?_
  rintro ⟨names, listing, control, target⟩ hd
  cases hd
  rfl

/-- Where line ends are read, and where that leads: they are due at the end of a line, and
more of them may stand behind it and before the first statement. -/
inductive NewlineStep : Place → Place → Prop where
  | beginning : NewlineStep .beginning .beginning
  | due (o : Bool) : NewlineStep (.lineEnd o) (.blankLines o)
  | blank (o : Bool) : NewlineStep (.blankLines o) (.blankLines o)

theorem reads_newline {place place' : Place} (h : NewlineStep place place')
    (t : Terminal .newline) :
    Reads ⟨⟨place, bs⟩, x⟩ [t.1] [] "" ⟨⟨place', bs⟩, x⟩ := by
  have hk : t.1.kind ≠ .identifier := t.kind_ne Kind.noConfusion
  cases h
  all_goals
    refine .of_kind t.2 rfl rfl (fun d _ => d.useFault?_of_kind_ne hk) ?_
    rintro ⟨names, listing, control, target⟩ hd
    cases hd
    show Except.ok (Draft.mk names listing _ _) = Except.ok (Draft.mk names (listing.emit "") _ _)
    rw [Listing.emit_empty]
    rfl

theorem reads_newlines {place : Place} (h : NewlineStep place place)
    (leaves : List (Terminal .newline)) :
    Reads ⟨⟨place, bs⟩, x⟩ (leafTokens leaves) [] "" ⟨⟨place, bs⟩, x⟩ := by
  induction leaves with
  | nil => exact .nil _
  | cons t leaves ih => exact (reads_newline h t).cons ih

theorem reads_lineEnds (o : Bool) (ends : LineEnds) :
    Reads ⟨⟨.lineEnd o, bs⟩, x⟩ ends.tokens [] "" ⟨⟨.blankLines o, bs⟩, x⟩ :=
  (reads_newline (.due o) ends.first).cons (reads_newlines (.blank o) ends.more)

/-! ## What is due when a phrase is over -/

theorem settles_value {k : Kind} (hk : k ≠ .string) :
    Settles ⟨⟨.printItem, bs⟩, x⟩ k [] "printf(\"%.2f\\n\", (float)("
      ⟨⟨.operand .printed, bs⟩, x⟩ := by
  refine ⟨rfl, ?_⟩
  rintro ⟨names, listing, control, target⟩ hd
  cases hd
  rw [Draft.settle, Control.settle, Place.settle, if_neg hk]
  rfl

theorem settles_printed :
    Settles ⟨⟨.operator .printed, bs⟩, x⟩ .newline [] ("));" ++ "\n")
      ⟨⟨.lineEnd false, bs⟩, x⟩ := by
  refine ⟨rfl, ?_⟩
  rintro ⟨names, listing, control, target⟩ hd
  cases hd
  rfl

/-- The variable of an assignment is declared when its expression is over. -/
theorem settles_assigned (t : Token) :
    Settles ⟨⟨.operator .assigned, bs⟩, t.text⟩ .newline [.assign t] (";" ++ "\n")
      ⟨⟨.lineEnd false, bs⟩, ""⟩ := by
  refine ⟨rfl, ?_⟩
  rintro ⟨names, listing, control, target⟩ hd
  cases hd
  show Except.ok (((Draft.mk names listing ⟨.operator .assigned, bs⟩ t.text).declareVariable
      t.text).move (";" ++ "\n") ⟨⟨.lineEnd false, bs⟩, ""⟩) =
    Except.ok { (Draft.mk names (listing.emit (";" ++ "\n")) ⟨.operator .assigned, bs⟩
      t.text).declareVariable t.text with control := ⟨.lineEnd false, bs⟩, target := "" }
  rw [Draft.declareVariable, Draft.declareVariable]
  split <;> rfl

/-- The word behind a condition is awaited behind its last operand, and nothing is due. -/
theorem settles_condition (b : Block) :
    Settles ⟨⟨.operator (.compared b), bs⟩, x⟩ (.keyword b.opener) [] ""
      ⟨⟨.opener b, bs⟩, x⟩ := by
  refine ⟨rfl, ?_⟩
  rintro ⟨names, listing, control, target⟩ hd
  cases hd
  show Except.ok (Draft.mk names (listing.emit "") _ _) = Except.ok (Draft.mk names listing _ _)
  rw [Listing.emit_empty]
  rfl

/-- Behind the line ends of a statement, a token of another kind begins the next one. -/
theorem settles_statement {k : Kind} (hk : k ≠ .newline) :
    Settles ⟨⟨.blankLines false, bs⟩, x⟩ k [] "" ⟨⟨.statement, bs⟩, x⟩ := by
  refine ⟨rfl, ?_⟩
  rintro ⟨names, listing, control, target⟩ hd
  cases hd
  rw [Draft.settle, Control.settle, Place.settle, if_neg hk]
  show Except.ok (Draft.mk names (listing.emit "") _ _) = Except.ok (Draft.mk names listing _ _)
  rw [Listing.emit_empty]
  rfl

end PocketBasic

import PocketBasic.Proofs.Grammar.Reactions

/-!
# The control recognizes the grammar

Whatever tokens the control reads to the end of a program, a tree spells them.  The control
goes through a phrase of the grammar and leaves it at a place of its own, so every phrase
has a lemma of the same form: if the control accepts tokens from the place where the phrase
begins, they begin with the tokens of a tree of the phrase, and the control accepts the
others from the place where the phrase ends.

The blocks that are open come back as what is still to be read: behind a program stands the
end of the innermost block (`Control.Closes`).

Main statement: `Control.exists_tree_of_accepts`.
-/

namespace PocketBasic
namespace Control

/-- The tokens are read one after the other, and then the program is complete. -/
def Accepts (c : Control) : List Token → Prop
  | [] => c.react .endOfInput = .complete
  | t :: ts => ∃ next, c.react t.kind = .proceed next ∧ next.Accepts ts

variable {bs : List Block} {ts : List Token}

/-! ## Single tokens -/

/-- A token that is read leads on from where it is read. -/
theorem Accepts.exists_step {place : Place} {t : Token} (h : Accepts ⟨place, bs⟩ (t :: ts)) :
    ∃ k next, t.kind = k ∧ Step bs (place.settle k) k next ∧ next.Accepts ts := by
  obtain ⟨next, hnext, hrest⟩ := h
  exact ⟨t.kind, next, rfl, .of_reactSettled hnext, hrest⟩

/-- Where one kind of token is due, such a token comes next. -/
theorem Accepts.of_expect {place place' : Place} {due : Kind} {e : Expectation}
    (h : Accepts ⟨place, bs⟩ ts)
    (hreact : ∀ k, react ⟨place, bs⟩ k = expect ⟨place, bs⟩ k due place' e) :
    ∃ (t : Terminal due) (rest : List Token), ts = t.1 :: rest ∧ Accepts ⟨place', bs⟩ rest := by
  cases ts with
  | nil => exact absurd ((hreact .endOfInput).symm.trans h) (expect_ne_complete _ _ _ _ _)
  | cons t rest =>
    obtain ⟨next, hnext, hrest⟩ := h
    obtain ⟨hk, rfl⟩ := eq_proceed_of_expect ((hreact t.kind).symm.trans hnext)
    exact ⟨⟨t, hk⟩, rest, rfl, hrest⟩

/-- Reading a token begins with settling, so the place before it may be another one. -/
theorem Accepts.of_settle {c c' : Control} {t : Token} (h : c.Accepts (t :: ts))
    (hsettle : c'.settle t.kind = c.settle t.kind) : c'.Accepts (t :: ts) := by
  obtain ⟨next, hnext, hrest⟩ := h
  refine ⟨next, ?_, hrest⟩
  rw [react, hsettle]
  exact hnext

/-! ## Line ends -/

/-- From where line ends may stand, they are read until a statement begins. -/
theorem Accepts.exists_newlines {place : Place} (h : Accepts ⟨place, bs⟩ ts)
    (hsettle : ∀ k, place.settle k = if k = .newline then place else .statement)
    (hreact : reactSettled ⟨place, bs⟩ .newline = .proceed ⟨place, bs⟩) :
    ∃ (leaves : List (Terminal .newline)) (rest : List Token),
      ts = leafTokens leaves ++ rest ∧ Accepts ⟨.statement, bs⟩ rest := by
  induction ts with
  | nil =>
    refine ⟨[], [], rfl, ?_⟩
    rw [Accepts, react, settle, hsettle, if_neg Kind.noConfusion] at h
    exact h
  | cons t ts ih =>
    by_cases hk : t.kind = .newline
    · obtain ⟨next, hnext, hrest⟩ := h
      rw [react, settle, hsettle, if_pos hk, hk, hreact] at hnext
      obtain rfl := Verdict.proceed.inj hnext
      obtain ⟨leaves, rest, rfl, hstatement⟩ := ih hrest
      exact ⟨⟨t, hk⟩ :: leaves, rest, rfl, hstatement⟩
    · refine ⟨[], t :: ts, rfl, h.of_settle ?_⟩
      rw [settle, settle, hsettle, if_neg hk]
      rfl

theorem Accepts.exists_lineEnds {o : Bool} (h : Accepts ⟨.lineEnd o, bs⟩ ts) :
    ∃ (ends : LineEnds) (rest : List Token),
      ts = ends.tokens ++ rest ∧ Accepts ⟨.statement, bs⟩ rest := by
  obtain ⟨first, rest, rfl, hrest⟩ := h.of_expect fun _ => rfl
  obtain ⟨more, rest, rfl, hstatement⟩ := hrest.exists_newlines (fun _ => rfl) rfl
  exact ⟨⟨first, more⟩, rest, rfl, hstatement⟩

/-! ## Expressions -/

/-- Operands with operators between them are read as long as there are operators. -/
theorem exists_chain {q : Kind → Prop} {α : Type} {f : α → List Token} {P Q : List Token → Prop}
    (hitem : ∀ ts, P ts → ∃ a rest, ts = f a ++ rest ∧ Q rest)
    (hoperator : ∀ t rest, q t.kind → Q (t :: rest) → P rest) (h : P ts) :
    ∃ (c : Chain q α) (rest : List Token), ts = c.tokensWith f ++ rest ∧ Q rest ∧
      ∀ t rest', rest = t :: rest' → ¬ q t.kind := by
  induction hn : ts.length using Nat.strongRecOn generalizing ts with
  | ind n ih =>
    obtain ⟨a, rest, rfl, hrest⟩ := hitem ts h
    by_cases hmore : ∃ t rest', rest = t :: rest' ∧ q t.kind
    · obtain ⟨t, rest', rfl, ht⟩ := hmore
      have hlt : rest'.length < n := by
        rw [← hn, List.length_append, List.length_cons]
        omega
      obtain ⟨c, rest, rfl, hc⟩ := ih _ hlt (hoperator t rest' ht hrest) rfl
      refine ⟨.link a ⟨t, ht⟩ c, rest, ?_, hc⟩
      rw [Chain.tokensWith, List.append_assoc, List.cons_append]
    · refine ⟨.last a, rest, rfl, hrest, fun t rest' hts ht => hmore ⟨t, rest', hts, ht⟩⟩

theorem exists_primary {t : Token} (h : t.kind.isOperand) : ∃ e : Primary, e.tokens = [t] := by
  cases hk : t.kind with
  | number => exact ⟨.number ⟨t, hk⟩, rfl⟩
  | identifier => exact ⟨.name ⟨t, hk⟩, rfl⟩
  | endOfInput | newline | string | keyword | operator =>
    rw [hk] at h
    cases h

/-- What may come where an operand is due. -/
theorem Accepts.of_operand {p : Purpose} (h : Accepts ⟨.operand p, bs⟩ ts) :
    ∃ t rest, ts = t :: rest ∧ (t.kind.isSign ∧ Accepts ⟨.signed p, bs⟩ rest ∨
      t.kind.isOperand ∧ Accepts ⟨.operator p, bs⟩ rest) := by
  cases ts with
  | nil => cases h
  | cons t rest =>
    obtain ⟨k, next, rfl, hstep, hrest⟩ := h.exists_step
    refine ⟨t, rest, rfl, ?_⟩
    cases hstep with
    | sign _ hk => exact .inl ⟨hk, hrest⟩
    | operand _ hk => exact .inr ⟨hk, hrest⟩

theorem Accepts.of_signed {p : Purpose} (h : Accepts ⟨.signed p, bs⟩ ts) :
    ∃ t rest, ts = t :: rest ∧ t.kind.isOperand ∧ Accepts ⟨.operator p, bs⟩ rest := by
  cases ts with
  | nil => cases h
  | cons t rest =>
    obtain ⟨k, next, rfl, hstep, hrest⟩ := h.exists_step
    cases hstep with
    | signed _ hk => exact ⟨t, rest, rfl, hk, hrest⟩

theorem Accepts.exists_unary {p : Purpose} (h : Accepts ⟨.operand p, bs⟩ ts) :
    ∃ (u : Unary) (rest : List Token), ts = u.tokens ++ rest ∧ Accepts ⟨.operator p, bs⟩ rest := by
  obtain ⟨t, rest, rfl, ⟨hsign, hrest⟩ | ⟨hoperand, hrest⟩⟩ := h.of_operand
  · obtain ⟨t', rest, rfl, hoperand, hrest⟩ := hrest.of_signed
    obtain ⟨e, he⟩ := exists_primary hoperand
    refine ⟨⟨some ⟨t, hsign⟩, e⟩, rest, ?_, hrest⟩
    rw [Unary.tokens, he]
    rfl
  · obtain ⟨e, he⟩ := exists_primary hoperand
    refine ⟨⟨none, e⟩, rest, ?_, hrest⟩
    rw [Unary.tokens, he]
    rfl

theorem react_operator {p : Purpose} {k : Kind} (hk : k.isArithmetic) :
    react ⟨.operator p, bs⟩ k = .proceed ⟨.operand p, bs⟩ := by
  have hsettle : Place.settle k (.operator p) = .operator p := by
    cases p <;> simp [Place.settle, hk]
  rw [react, settle, hsettle]
  exact if_pos hk

/-- Behind an operand, an operator leads to another operand. -/
theorem Accepts.of_arithmetic {p : Purpose} {t : Token} (ht : t.kind.isArithmetic)
    (h : Accepts ⟨.operator p, bs⟩ (t :: ts)) : Accepts ⟨.operand p, bs⟩ ts := by
  obtain ⟨next, hnext, hrest⟩ := h
  rw [react_operator ht] at hnext
  obtain rfl := Verdict.proceed.inj hnext
  exact hrest

/-- From where an operand is due, an expression is read, and all of it. -/
theorem Accepts.exists_expression {p : Purpose} (h : Accepts ⟨.operand p, bs⟩ ts) :
    ∃ (e : Expression) (rest : List Token), ts = e.tokens ++ rest ∧
      Accepts ⟨.operator p, bs⟩ rest ∧ ∀ t rest', rest = t :: rest' → ¬ t.kind.isArithmetic := by
  have hterm : ∀ ts, Accepts ⟨.operand p, bs⟩ ts → ∃ (t : Term) (rest : List Token),
      ts = t.tokens ++ rest ∧ Accepts ⟨.operator p, bs⟩ rest ∧
        ∀ t rest', rest = t :: rest' → ¬ t.kind.isFactor := by
    intro ts hts
    refine exists_chain (fun _ hts => hts.exists_unary) (fun t rest ht hrest => ?_) hts
    exact hrest.of_arithmetic (by rw [Kind.isArithmetic_eq, ht, Bool.or_true])
  have hchain := exists_chain (q := (·.isSign)) hterm
    (fun t rest ht hrest => hrest.1.of_arithmetic (by rw [Kind.isArithmetic_eq, ht]; rfl)) h
  obtain ⟨e, rest, hts, ⟨hrest, hfactor⟩, hsign⟩ := hchain
  refine ⟨e, rest, hts, hrest, ?_⟩
  intro t rest' hrest' harithmetic
  rw [Kind.isArithmetic_eq, Bool.or_eq_true] at harithmetic
  exact harithmetic.elim (hsign t rest' hrest') (hfactor t rest' hrest')

/-- Behind the last operand of an expression stands what the expression is read for. -/
theorem Accepts.of_value {p : Purpose} (hp : p = .printed ∨ p = .assigned)
    (h : Accepts ⟨.operator p, bs⟩ ts)
    (hmore : ∀ t rest, ts = t :: rest → ¬ t.kind.isArithmetic) :
    Accepts ⟨.lineEnd false, bs⟩ ts := by
  cases ts with
  | nil =>
    rcases hp with rfl | rfl
    all_goals cases h
  | cons t rest =>
    have hk := hmore t rest rfl
    refine h.of_settle ?_
    rcases hp with rfl | rfl
    all_goals
      rw [settle, settle, Place.settle, if_neg hk]
      rfl

/-! ## Conditions -/

/-- A comparison leads from one of its sides to the next. -/
theorem react_comparison {b : Block} {p : Purpose} (hp : p = .tested b ∨ p = .compared b)
    {k : Kind} (hk : k.isComparison) :
    react ⟨.operator p, bs⟩ k = .proceed ⟨.operand (.compared b), bs⟩ := by
  have harithmetic := Kind.isArithmetic_of_isComparison hk
  rcases hp with rfl | rfl
  all_goals simp [react, settle, Place.settle, reactSettled, reactAtOperator, goTo, hk, harithmetic]

theorem Accepts.of_isComparison {b : Block} {p : Purpose} (hp : p = .tested b ∨ p = .compared b)
    {t : Token} (ht : t.kind.isComparison) (h : Accepts ⟨.operator p, bs⟩ (t :: ts)) :
    Accepts ⟨.operand (.compared b), bs⟩ ts := by
  obtain ⟨next, hnext, hrest⟩ := h
  rw [react_comparison hp ht] at hnext
  obtain rfl := Verdict.proceed.inj hnext
  exact hrest

/-- Behind the first expression of a condition stands a comparison. -/
theorem Accepts.of_tested {b : Block} (h : Accepts ⟨.operator (.tested b), bs⟩ ts)
    (hmore : ∀ t rest, ts = t :: rest → ¬ t.kind.isArithmetic) :
    ∃ t rest, ts = t :: rest ∧ t.kind.isComparison := by
  cases ts with
  | nil => cases h
  | cons t rest =>
    obtain ⟨k, next, rfl, hstep, -⟩ := h.exists_step
    refine ⟨t, rest, rfl, ?_⟩
    cases hstep with
    | operator _ hk => exact absurd hk (hmore t rest rfl)
    | tested _ hk => exact hk

/-- Behind the last operand of a condition stands the word that opens the block. -/
theorem Accepts.of_compared {b : Block} (h : Accepts ⟨.operator (.compared b), bs⟩ ts)
    (harithmetic : ∀ t rest, ts = t :: rest → ¬ t.kind.isArithmetic)
    (hcomparison : ∀ t rest, ts = t :: rest → ¬ t.kind.isComparison) :
    Accepts ⟨.opener b, bs⟩ ts := by
  cases ts with
  | nil => cases h
  | cons t rest =>
    have hk : ¬ (t.kind.isArithmetic || t.kind.isComparison) = true := by
      rw [Bool.or_eq_true, not_or]
      exact ⟨harithmetic t rest rfl, hcomparison t rest rfl⟩
    refine h.of_settle ?_
    rw [settle, settle, Place.settle, if_neg hk]
    rfl

theorem Accepts.exists_comparison {b : Block} (h : Accepts ⟨.operand (.tested b), bs⟩ ts) :
    ∃ (c : Comparison) (rest : List Token), ts = c.tokens ++ rest ∧
      Accepts ⟨.opener b, bs⟩ rest := by
  obtain ⟨first, rest, rfl, hrest, hfirst⟩ := h.exists_expression
  obtain ⟨t, rest, rfl, ht⟩ := hrest.of_tested hfirst
  have hchain := exists_chain (q := (·.isComparison)) (fun _ hts => hts.exists_expression)
    (fun t rest ht hrest => hrest.1.of_isComparison (.inr rfl) ht)
    (hrest.of_isComparison (.inl rfl) ht)
  obtain ⟨others, rest, rfl, ⟨hrest, harithmetic⟩, hcomparison⟩ := hchain
  refine ⟨⟨first, ⟨t, ht⟩, others⟩, rest, ?_, hrest.of_compared harithmetic hcomparison⟩
  rw [Comparison.tokens, List.append_assoc, List.cons_append]

/-- The word that opens a block puts it on the stack. -/
theorem Accepts.of_opener {b : Block} (h : Accepts ⟨.opener b, bs⟩ ts) :
    ∃ (t : Terminal (.keyword b.opener)) (rest : List Token),
      ts = t.1 :: rest ∧ Accepts ⟨.lineEnd true, b :: bs⟩ rest := by
  cases ts with
  | nil => cases b <;> cases h
  | cons t rest =>
    obtain ⟨k, next, hk, hstep, hrest⟩ := h.exists_step
    cases hstep with
    | opener => exact ⟨⟨t, hk⟩, rest, rfl, hrest⟩

theorem Accepts.exists_head {b : Block} {t : Token} (ht : t.kind = .keyword b.word)
    (h : Accepts ⟨.operand (.tested b), bs⟩ ts) :
    ∃ (head : BlockHead b) (rest : List Token), t :: ts = head.tokens ++ rest ∧
      Accepts ⟨.statement, b :: bs⟩ rest := by
  obtain ⟨test, rest₁, rfl, hopener⟩ := h.exists_comparison
  obtain ⟨opener, rest₂, rfl, hends⟩ := hopener.of_opener
  obtain ⟨ends, rest, rfl, hrest⟩ := hends.exists_lineEnds
  refine ⟨⟨⟨t, ht⟩, test, opener, ends⟩, rest, ?_, hrest⟩
  rw [BlockHead.tokens, List.cons_append, List.append_assoc, List.cons_append]

/-! ## Statements -/

/-- What stands behind a program: nothing, or the end of the block that it is the body of. -/
def Closes : List Block → List Token → Prop
  | [], ts => ts = []
  | b :: outer, ts =>
    ∃ (foot : BlockEnd b) (rest : List Token), ts = foot.tokens ++ rest ∧
      Accepts ⟨.statement, outer⟩ rest

/-- After `PRINT` stands a string, or else an expression. -/
theorem Accepts.of_printItem (h : Accepts ⟨.printItem, bs⟩ ts) :
    (∃ (text : Terminal .string) (rest : List Token),
      ts = text.1 :: rest ∧ Accepts ⟨.lineEnd false, bs⟩ rest) ∨
    Accepts ⟨.operand .printed, bs⟩ ts := by
  cases ts with
  | nil => cases h
  | cons t rest =>
    by_cases hk : t.kind = .string
    · obtain ⟨next, hnext, hrest⟩ := h
      rw [hk] at hnext
      obtain rfl := Verdict.proceed.inj hnext
      exact .inl ⟨⟨t, hk⟩, rest, rfl, hrest⟩
    · refine .inr (h.of_settle ?_)
      rw [settle, settle, Place.settle, if_neg hk]
      rfl

/-- A value is read up to the line ends behind it. -/
theorem Accepts.exists_value {p : Purpose} (hp : p = .printed ∨ p = .assigned)
    (h : Accepts ⟨.operand p, bs⟩ ts) :
    ∃ (value : Expression) (ends : LineEnds) (rest : List Token),
      ts = value.tokens ++ ends.tokens ++ rest ∧ Accepts ⟨.statement, bs⟩ rest := by
  obtain ⟨value, rest, rfl, hvalue, hmore⟩ := h.exists_expression
  obtain ⟨ends, rest, rfl, hrest⟩ := (hvalue.of_value hp hmore).exists_lineEnds
  exact ⟨value, ends, rest, (List.append_assoc _ _ _).symm, hrest⟩

/-- A name is read up to the line ends behind it. -/
theorem Accepts.exists_name {place : Place} {e : Expectation} (h : Accepts ⟨place, bs⟩ ts)
    (hreact : ∀ k, react ⟨place, bs⟩ k = expect ⟨place, bs⟩ k .identifier (.lineEnd false) e) :
    ∃ (name : Terminal .identifier) (ends : LineEnds) (rest : List Token),
      ts = name.1 :: (ends.tokens ++ rest) ∧ Accepts ⟨.statement, bs⟩ rest := by
  obtain ⟨name, rest, rfl, hname⟩ := h.of_expect hreact
  obtain ⟨ends, rest, rfl, hrest⟩ := hname.exists_lineEnds
  exact ⟨name, ends, rest, rfl, hrest⟩

/-- Where a statement may begin, there is a simple statement with its line ends, or the
beginning of a block, or what closes the program. -/
theorem Accepts.of_statement (h : Accepts ⟨.statement, bs⟩ ts) :
    (∃ (form : Form) (ends : LineEnds) (rest : List Token),
      ts = form.tokens ++ ends.tokens ++ rest ∧ Accepts ⟨.statement, bs⟩ rest) ∨
    (∃ (b : Block) (head : BlockHead b) (rest : List Token),
      ts = head.tokens ++ rest ∧ Accepts ⟨.statement, b :: bs⟩ rest) ∨
    Closes bs ts := by
  cases ts with
  | nil =>
    obtain ⟨-, -, hblocks⟩ := reactSettled_eq_complete_iff.mp h
    obtain rfl : bs = [] := hblocks
    exact .inr (.inr rfl)
  | cons t rest =>
    obtain ⟨k, next, hk, hstep, htail⟩ := h.exists_step
    cases hstep with
    | print =>
      rcases htail.of_printItem with ⟨text, rest, rfl, hends⟩ | hvalue
      · obtain ⟨ends, rest, rfl, hrest⟩ := hends.exists_lineEnds
        exact .inl ⟨.printString ⟨t, hk⟩ text, ends, rest, rfl, hrest⟩
      · obtain ⟨value, ends, rest, rfl, hrest⟩ := hvalue.exists_value (.inl rfl)
        exact .inl ⟨.printValue ⟨t, hk⟩ value, ends, rest, rfl, hrest⟩
    | block b =>
      obtain ⟨head, rest, hhead, hrest⟩ := htail.exists_head hk
      exact .inr (.inl ⟨b, head, rest, hhead, hrest⟩)
    | label =>
      obtain ⟨name, ends, rest, rfl, hrest⟩ := htail.exists_name fun _ => rfl
      exact .inl ⟨.label ⟨t, hk⟩ name, ends, rest, rfl, hrest⟩
    | jump =>
      obtain ⟨name, ends, rest, rfl, hrest⟩ := htail.exists_name fun _ => rfl
      exact .inl ⟨.jump ⟨t, hk⟩ name, ends, rest, rfl, hrest⟩
    | assign =>
      obtain ⟨name, rest, rfl, hname⟩ := htail.of_expect fun _ => rfl
      obtain ⟨equals, rest, rfl, hequals⟩ := hname.of_expect fun _ => rfl
      obtain ⟨value, ends, rest, rfl, hrest⟩ := hequals.exists_value (.inr rfl)
      exact .inl ⟨.assign ⟨t, hk⟩ name equals value, ends, rest, rfl, hrest⟩
    | input =>
      obtain ⟨name, ends, rest, rfl, hrest⟩ := htail.exists_name fun _ => rfl
      exact .inl ⟨.input ⟨t, hk⟩ name, ends, rest, rfl, hrest⟩
    | close b outer hblocks =>
      subst hblocks
      obtain ⟨ends, rest, rfl, hrest⟩ := htail.exists_lineEnds
      exact .inr (.inr ⟨⟨⟨t, hk⟩, ends⟩, rest, rfl, hrest⟩)

theorem Form.length_pos (form : Form) : 0 < form.tokens.length := by
  cases form <;> exact Nat.succ_pos _

/-- Where a statement may begin, a program is read, up to what closes it. -/
theorem Accepts.exists_program (h : Accepts ⟨.statement, bs⟩ ts) :
    ∃ (p : Program) (rest : List Token), ts = p.tokens ++ rest ∧ Closes bs rest := by
  induction hn : ts.length using Nat.strongRecOn generalizing ts bs with
  | ind n ih =>
    rcases h.of_statement with
      ⟨form, ends, rest, rfl, hrest⟩ | ⟨b, head, rest, rfl, hrest⟩ | hcloses
    · have hlt : rest.length < n := by
        have := Form.length_pos form
        rw [← hn, List.length_append, List.length_append]
        omega
      obtain ⟨p, rest, rfl, hcloses⟩ := ih _ hlt hrest rfl
      refine ⟨.simple form ends :: p, rest, ?_, hcloses⟩
      rw [Program.tokens, List.append_assoc _ p.tokens]
    · have hlt : rest.length < n := by
        rw [← hn, List.length_append, BlockHead.tokens, List.length_cons]
        omega
      obtain ⟨body, inner, rfl, foot, rest, rfl, houter⟩ := ih _ hlt hrest rfl
      have hlt' : rest.length < n := by
        simp only [List.length_append] at hlt
        omega
      obtain ⟨p, rest, rfl, hcloses⟩ := ih _ hlt' houter rfl
      refine ⟨.block b head body foot :: p, rest, ?_, hcloses⟩
      simp only [Program.tokens, List.append_assoc]
    · exact ⟨[], ts, by rw [Program.tokens, List.nil_append], hcloses⟩

end Control

/-- The tokens that the control reads from its start to the end of the input are line ends
and the tokens of a program. -/
theorem Control.exists_tree_of_accepts {ts : List Token} (h : Control.start.Accepts ts) :
    ∃ (blanks : List (Terminal .newline)) (p : Program), ts = leafTokens blanks ++ p.tokens := by
  obtain ⟨blanks, rest, rfl, hrest⟩ := h.exists_newlines (fun _ => rfl) rfl
  obtain ⟨p, rest, rfl, rfl⟩ := hrest.exists_program
  exact ⟨blanks, p, by rw [List.append_nil]⟩

end PocketBasic

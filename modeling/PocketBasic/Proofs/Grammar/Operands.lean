import PocketBasic.Proofs.Translation.Targets

/-!
# Expressions are rows of operands

An expression has no brackets, so the levels of its operators leave no trace in the order of its
tokens: it is a row of operands, each with at most one sign, with operators between them.  Three
stages are enough to read one, and the control of the grammar goes through these stages whatever
the expression is read for (`Stage.follow_placeFor`).

Main statements: tokens are an expression exactly if they lead from the stage where an operand is
due to the one behind an operand (`isExpression_iff`).  So tokens that lead to another stage want
an operand (`Stage.wantsOperand`), and what a stage does not allow continues no expression
(`Stage.not_isExpression`).
-/

namespace PocketBasic

/-! ## Stages -/

/-- A stage of an expression: before an operand or its sign, between the two, or behind an
operand. -/
inductive Stage where
  | operand
  | signed
  | operator
  deriving DecidableEq, Repr

namespace Stage

/-- The place in the grammar where an expression for a purpose is at a stage. -/
def placeFor (p : Purpose) : Stage → Place
  | operand => .operand p
  | signed => .signed p
  | operator => .operator p

/-- The stage behind a token of a kind, if the expression goes on with it. -/
def next? (k : Kind) : Stage → Option Stage
  | operand => if k.isSign then some signed else if k.isOperand then some operator else none
  | signed => if k.isOperand then some operator else none
  | operator => if k.isArithmetic then some operand else none

/-- The stage behind tokens of some kinds. -/
def follow (s : Stage) : List Kind → Option Stage
  | [] => some s
  | k :: ks => (s.next? k).bind (·.follow ks)

variable {s s' : Stage} {k : Kind} {ks : List Kind} {p : Purpose} {bs : List Block} {c : Control}

theorem follow_append (s : Stage) (ks ls : List Kind) :
    s.follow (ks ++ ls) = (s.follow ks).bind (·.follow ls) := by
  induction ks generalizing s with
  | nil => rfl
  | cons k ks ih =>
    rw [List.cons_append, follow, follow, Option.bind_assoc]
    simp only [ih]

theorem follow_concat (h : s.follow ks = some s') (k : Kind) :
    s.follow (ks ++ [k]) = s'.next? k := by
  rw [follow_append, h]
  show (s'.next? k).bind some = s'.next? k
  exact Option.bind_fun_some _

/-- Wherever an operand is due, it leads to the stage behind it. -/
theorem next?_of_isOperand (hs : s ≠ operator) (hk : k.isOperand) :
    s.next? k = some operator := by
  cases s with
  | operand =>
    have hsign : ¬k.isSign = true := by
      intro hsign
      cases k
      all_goals first | cases hsign | cases hk
    exact (if_neg hsign).trans (if_pos hk)
  | signed => exact if_pos hk
  | operator => exact absurd rfl hs

theorem next?_operator (hk : k.isArithmetic) : operator.next? k = some operand := if_pos hk

/-- No expression goes over a line end. -/
theorem kind_ne_newline (h : s.next? k = some s') : k ≠ .newline := by
  rintro rfl
  cases s
  all_goals cases h

/-! ## The control goes through the stages -/

/-- A place that an expression goes on from is the one where its token is read. -/
theorem settle_placeFor (h : s = operator → k.isArithmetic) :
    (s.placeFor p).settle k = s.placeFor p := by
  cases s with
  | operand | signed => rfl
  | operator =>
    cases p with
    | tested b => rfl
    | printed | assigned => exact if_pos (h rfl)
    | compared b => exact if_pos (by rw [h rfl, Bool.true_or])

theorem reactSettled_of_next? (h : s.next? k = some s') :
    Control.reactSettled ⟨s.placeFor p, bs⟩ k = .proceed ⟨s'.placeFor p, bs⟩ := by
  cases s with
  | operand =>
    dsimp only [next?] at h
    dsimp only [placeFor, Control.reactSettled]
    split_ifs at h ⊢
    all_goals
      obtain rfl := Option.some.inj h
      rfl
  | signed =>
    dsimp only [next?] at h
    dsimp only [placeFor, Control.reactSettled]
    split_ifs at h ⊢
    obtain rfl := Option.some.inj h
    rfl
  | operator =>
    dsimp only [next?] at h
    dsimp only [placeFor, Control.reactSettled, Control.reactAtOperator]
    split_ifs at h ⊢
    obtain rfl := Option.some.inj h
    rfl

/-- Where an operand is due, what does not fit is refused as no operand. -/
theorem reactSettled_of_next?_eq_none (hs : s ≠ operator) (h : s.next? k = none) :
    Control.reactSettled ⟨s.placeFor p, bs⟩ k = .reject .operand := by
  cases s with
  | operand =>
    dsimp only [next?] at h
    dsimp only [placeFor, Control.reactSettled]
    split_ifs at h ⊢
    rfl
  | signed =>
    dsimp only [next?] at h
    dsimp only [placeFor, Control.reactSettled]
    split_ifs at h ⊢
    rfl
  | operator => exact absurd rfl hs

/-- A token that an expression goes on with leads to the place of the next stage. -/
theorem react_of_next? (h : s.next? k = some s') :
    Control.react ⟨s.placeFor p, bs⟩ k = .proceed ⟨s'.placeFor p, bs⟩ := by
  have hsettle : (s.placeFor p).settle k = s.placeFor p := by
    refine settle_placeFor ?_
    rintro rfl
    by_contra hk
    rw [next?, if_neg hk] at h
    cases h
  rw [Control.react, Control.settle, hsettle]
  exact reactSettled_of_next? h

/-- The control goes through the places of the stages. -/
theorem follow_placeFor (h : s.follow ks = some s') :
    Control.follow ⟨s.placeFor p, bs⟩ ks = some ⟨s'.placeFor p, bs⟩ := by
  induction ks generalizing s with
  | nil =>
    obtain rfl := Option.some.inj h
    rfl
  | cons k ks ih =>
    obtain ⟨s'', hnext, hrest⟩ := Option.bind_eq_some_iff.mp h
    rw [Control.follow_cons (react_of_next? hnext)]
    exact ih hrest

/-- Within a line, the control goes to no other place. -/
theorem exists_next?_of_react (hk : k ≠ .newline)
    (h : Control.react ⟨s.placeFor .assigned, bs⟩ k = .proceed c) :
    ∃ s', s.next? k = some s' ∧ c = ⟨s'.placeFor .assigned, bs⟩ := by
  have hstep := Control.Step.of_reactSettled h
  cases s with
  | operand =>
    change Control.Step bs (.operand .assigned) k c at hstep
    cases hstep with
    | sign _ hsign => exact ⟨signed, if_pos hsign, rfl⟩
    | operand _ hoperand => exact ⟨operator, next?_of_isOperand Stage.noConfusion hoperand, rfl⟩
  | signed =>
    change Control.Step bs (.signed .assigned) k c at hstep
    cases hstep with
    | signed _ hoperand => exact ⟨operator, next?_of_isOperand Stage.noConfusion hoperand, rfl⟩
  | operator =>
    by_cases harithmetic : k.isArithmetic
    · rw [react_of_next? (next?_operator harithmetic)] at h
      exact ⟨operand, next?_operator harithmetic, (Verdict.proceed.inj h).symm⟩
    · -- behind a value that is over, only the end of the line is read
      have hsettle : (placeFor .assigned operator).settle k = .lineEnd false := if_neg harithmetic
      change Control.Step bs ((placeFor .assigned operator).settle k) k c at hstep
      rw [hsettle] at hstep
      cases hstep
      exact absurd rfl hk

theorem exists_follow_of_control (hks : ∀ k ∈ ks, k ≠ .newline)
    (h : Control.follow ⟨s.placeFor .assigned, bs⟩ ks = some c) :
    ∃ s', s.follow ks = some s' ∧ c = ⟨s'.placeFor .assigned, bs⟩ := by
  induction ks generalizing s with
  | nil => exact ⟨s, rfl, (Option.some.inj h).symm⟩
  | cons k ks ih =>
    obtain ⟨hk, hks⟩ := List.forall_mem_cons.mp hks
    obtain ⟨next, hreact, hrest⟩ := Control.exists_of_follow_cons h
    obtain ⟨s', hnext, rfl⟩ := exists_next?_of_react hk hreact
    obtain ⟨s'', hfollow, hc⟩ := ih hks hrest
    exact ⟨s'', by rw [follow, hnext]; exact hfollow, hc⟩

theorem kinds_ne_newline (h : s.follow ks = some s') : ∀ k ∈ ks, k ≠ .newline := by
  induction ks generalizing s with
  | nil => exact List.forall_mem_nil _
  | cons k ks ih =>
    obtain ⟨s'', hnext, hrest⟩ := Option.bind_eq_some_iff.mp h
    exact List.forall_mem_cons.mpr ⟨kind_ne_newline hnext, ih hrest⟩

end Stage

/-! ## Expressions -/

/-- Some tokens are those of an expression. -/
def IsExpression (ts : List Token) : Prop := ∃ e : Expression, e.tokens = ts

/-- Some tokens are the beginning of an expression that wants an operand: they are none, and any
number or name makes them one. -/
structure WantsOperand (ts : List Token) : Prop where
  incomplete : ¬ IsExpression ts
  completed (operand : Token) (h : operand.kind.isOperand) : IsExpression (ts ++ [operand])

variable {ts : List Token} {x : Token} {s : Stage}

/-- Tokens are an expression exactly if they lead through the stages to the one behind an
operand. -/
theorem isExpression_iff :
    IsExpression ts ↔ Stage.operand.follow (ts.map Token.kind) = some .operator := by
  constructor
  · rintro ⟨e, rfl⟩
    have hkinds : ∀ k ∈ e.tokens.map Token.kind, k ≠ .newline :=
      List.forall_mem_map.mpr (e.kind_ne rfl fun _ => Kind.noConfusion)
    have hleads : Control.follow ⟨Stage.operand.placeFor .assigned, []⟩ _ = _ :=
      Control.leads_expression .assigned e
    obtain ⟨s', hfollow, hplace⟩ := Stage.exists_follow_of_control hkinds hleads
    cases s' with
    | operator => exact hfollow
    | operand | signed => cases hplace
  · intro hfollow
    have hkinds : ∀ t ∈ ts, t.kind ≠ .newline := fun t ht =>
      Stage.kinds_ne_newline hfollow t.kind (List.mem_map_of_mem ht)
    have hleads : Control.Leads ⟨.operand .assigned, []⟩ ts ⟨.operator .assigned, []⟩ :=
      Stage.follow_placeFor hfollow
    obtain ⟨e, rfl⟩ := Control.exists_expression_of_leads hkinds hleads
    exact ⟨e, rfl⟩

namespace Stage

variable (h : operand.follow (ts.map Token.kind) = some s)

include h

theorem follow_map_concat (x : Token) :
    operand.follow ((ts ++ [x]).map Token.kind) = s.next? x.kind := by
  rw [List.map_append]
  exact follow_concat h x.kind

/-- Before the stage behind an operand, tokens want one. -/
theorem wantsOperand (hs : s ≠ operator) : WantsOperand ts where
  incomplete hexpression := by
    rw [isExpression_iff, h] at hexpression
    exact hs (Option.some.inj hexpression)
  completed x hx := by
    rw [isExpression_iff, follow_map_concat h]
    exact next?_of_isOperand hs hx

/-- A token that a stage does not allow continues no expression. -/
theorem not_isExpression (hnext : s.next? x.kind = none) (rest : List Token) :
    ¬ IsExpression (ts ++ x :: rest) := by
  rw [isExpression_iff, List.map_append, follow_append, h, List.map_cons]
  show (s.next? x.kind).bind _ ≠ _
  rw [hnext]
  exact (Option.some_ne_none _).symm

end Stage
end PocketBasic

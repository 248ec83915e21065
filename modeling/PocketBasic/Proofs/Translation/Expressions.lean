import PocketBasic.Proofs.Grammar.Operands
import PocketBasic.Proofs.Translation.Ledgers

/-!
# Reading an expression

A translation reads an expression from the moment in which an operand is due to the one in which
the token behind an operand joins nothing to it (`Translation.expression`).  A run goes through
such readings (`Translation.run_eq_resume`), so what is said of them is said of every expression in
a program.

What has been read over is written as it stands, and that is all that happens
(`Translation.ReadOver`): neither the names nor the header nor what is kept of the statement is
touched.  Each step of an expression reads over one token, or is refused before anything is done
(`Translation.expressionStep`).

Main statement: from any translation, an expression is read as far as it goes, or the tokens that
have been read over want an operand which the token in hand is not, or there is a lexical fault
(`Translation.expression_outcome`).
-/

namespace PocketBasic

/-! ## Drafts in an expression -/

namespace Draft

variable {d : Draft} {token : Token} {s s' : Stage} {p : Purpose}
  (hplace : d.control.place = s.placeFor p)

include hplace

theorem write_of_stage (token : Token) : d.write token = d.emit token.text := by
  unfold write
  rw [hplace]
  cases s
  all_goals rfl

theorem finish_of_stage (token : Token) (next : Control) :
    d.finish token next = .ok { d with control := next } := by
  unfold finish
  rw [hplace]
  cases s
  all_goals rfl

/-- An operand must be declared if it is a name, and nothing else must. -/
theorem useFault?_of_stage (hs : s = .operator → token.kind ≠ .identifier) :
    d.useFault? token =
      if token.kind = .identifier ∧ token.text ∉ d.names.variableNames
      then some (.undeclaredVariable token.text) else none := by
  by_cases hkind : token.kind = .identifier
  · unfold useFault?
    rw [hplace, hkind]
    cases s with
    | operand | signed =>
      dsimp only [Stage.placeFor]
      by_cases hmem : token.text ∈ d.names.variableNames
      · rw [if_pos hmem, if_neg fun h => h.2 hmem]
      · rw [if_neg hmem, if_pos ⟨rfl, hmem⟩]
    | operator => exact absurd hkind (hs rfl)
  · rw [useFault?_of_kind_ne d hkind, if_neg fun h => hkind h.1]

/-- A token that an expression goes on with passes, unless it is a name that is not declared. -/
theorem check_of_next? (hnext : s.next? token.kind = some s') :
    d.check token =
      if token.kind = .identifier ∧ token.text ∉ d.names.variableNames
      then .refused (.naming (.undeclaredVariable token.text))
      else .passed ⟨s'.placeFor p, d.control.blocks⟩ := by
  have hreact : d.control.reactSettled token.kind =
      .proceed ⟨s'.placeFor p, d.control.blocks⟩ := by
    have hcontrol : d.control = ⟨s.placeFor p, d.control.blocks⟩ := by rw [← hplace]
    rw [hcontrol]
    exact Stage.reactSettled_of_next? hnext
  have hs : s = .operator → token.kind ≠ .identifier := by
    rintro rfl hkind
    rw [hkind] at hnext
    cases hnext
  rw [check, hreact]
  dsimp only
  rw [useFault?_of_stage hplace hs]
  split_ifs
  all_goals rfl

/-- Where an operand is due, no other token passes. -/
theorem check_of_next?_eq_none (hs : s ≠ .operator) (hnext : s.next? token.kind = none) :
    d.check token = .refused (.grammar (Expectation.operand.fault token)) := by
  have hcontrol : d.control = ⟨s.placeFor p, d.control.blocks⟩ := by rw [← hplace]
  rw [check, hcontrol, Stage.reactSettled_of_next?_eq_none hs hnext]

end Draft

namespace Translation

variable {t u : Translation} {s s' : Stage} {p : Purpose}

/-! ## Tokens that are read over -/

/-- Tokens have been read over and written as they stand, and nothing else has happened. -/
structure ReadOver (t : Translation) (ts : List Token) (u : Translation) : Prop where
  /-- The tokens are those in hand one after the other. -/
  inHand (i : ℕ) (h : i < ts.length) : t.inHand i = .ok ts[i]
  /-- The tokens behind them are in hand now. -/
  behind (i : ℕ) : u.inHand i = t.inHand (ts.length + i)
  source : u.source = t.source.after ts.length
  declared : ∀ x ∈ ts, x.kind = .identifier → x.text ∈ t.names.variableNames
  names : u.names = t.names
  listing : u.listing = ⟨t.listing.header, t.listing.body ++ joinTexts ts⟩
  target : u.target = t.target
  blocks : u.control.blocks = t.control.blocks

namespace ReadOver

variable {t u v : Translation} {ts us : List Token}

theorem refl (t : Translation) : ReadOver t [] t where
  inHand i h := absurd h (Nat.not_lt_zero i)
  behind i := by rw [List.length_nil, Nat.zero_add]
  source := rfl
  declared x hx := absurd hx List.not_mem_nil
  names := rfl
  listing := by
    show t.listing = ⟨t.listing.header, t.listing.body ++ ""⟩
    rw [String.append_empty]
  target := rfl
  blocks := rfl

theorem append (h : ReadOver t ts u) (h' : ReadOver u us v) : ReadOver t (ts ++ us) v where
  inHand i hi := by
    by_cases hlt : i < ts.length
    · rw [List.getElem_append_left hlt]
      exact h.inHand i hlt
    · have hle : ts.length ≤ i := Nat.le_of_not_lt hlt
      rw [List.length_append] at hi
      rw [List.getElem_append_right hle, ← h'.inHand (i - ts.length) (by omega), h.behind,
        Nat.add_sub_cancel' hle]
  behind i := by rw [h'.behind, h.behind, List.length_append, Nat.add_assoc]
  source := by rw [h'.source, h.source, Source.after_after, List.length_append]
  declared x hx := by
    rcases List.mem_append.mp hx with hx | hx
    · exact h.declared x hx
    · rw [← h.names]
      exact h'.declared x hx
  names := h'.names.trans h.names
  listing := by rw [h'.listing, h.listing, joinTexts_append, String.append_assoc]
  target := h'.target.trans h.target
  blocks := h'.blocks.trans h.blocks

end ReadOver

/-! ## Reading an expression -/

/-- Whether the token in hand is read as part of an expression, or refused as one. -/
def inExpression (t : Translation) : Bool :=
  match t.control.place with
  | .operand _ | .signed _ => true
  | .operator _ => t.current.kind.isArithmetic
  | _ => false

/-- Reads the rest of an expression. -/
def expression (t : Translation) : Option Diagnostic × Translation :=
  if t.inExpression then
    match _h : t.step with
    | .running next => next.expression
    | .complete done => (none, done)
    | .failed d stopped => (some d, stopped)
  else (none, t)
termination_by t.pending
decreasing_by exact pending_step_lt _h

/-- A translation in which an operand is due. -/
def atOperand (t : Translation) (p : Purpose) : Translation :=
  t.withDraft { t.toDraft with control := ⟨.operand p, t.control.blocks⟩ }

/-- How a run goes on behind an expression, or ends with it. -/
def resume : Option Diagnostic × Translation → Option Diagnostic × Translation
  | (none, u) => u.run
  | (some d, u) => (some d, u)

/-- The cause for which a token is refused that is no operand. -/
def operandFault (token : Token) : Cause :=
  if token.kind = .identifier then .naming (.undeclaredVariable token.text)
  else .grammar (Expectation.operand.fault token)

/-- A token may come next in an expression that wants an operand: it is a number or a declared
variable, or a sign and the expression has one with it there. -/
def Suits (names : Names) (ts : List Token) (token : Token) : Prop :=
  token.kind = .number ∨
    (token.kind = .identifier ∧ token.text ∈ names.variableNames) ∨
    (token.kind.isSign ∧ ∃ rest, IsExpression (ts ++ token :: rest))

/-! ## One step -/

/-- What comes of one step in an expression. -/
inductive ExpressionStep (t : Translation) (s : Stage) (p : Purpose) : Step → Prop where
  /-- The token is read over. -/
  | taken {s' : Stage} {u : Translation} (hnext : s.next? t.current.kind = some s')
    (hread : ReadOver t [t.current] u) (hplace : u.control.place = s'.placeFor p) :
    ExpressionStep t s p (.running u)
  /-- There is a fault behind the token, which is written. -/
  | lexical {d : Diagnostic} {u : Translation}
    (hcause : ∃ fault, d.cause = .lexical fault) (hnames : u.names = t.names)
    (hlisting : u.listing = t.listing.emit t.current.text) : ExpressionStep t s p (.failed d u)
  /-- An operand is due, and the token is none. -/
  | refused (hoperand : s ≠ .operator)
    (h : s.next? t.current.kind = none ∨
      t.current.kind = .identifier ∧ t.current.text ∉ t.names.variableNames) :
    ExpressionStep t s p
      (.failed (t.diagnose (operandFault t.current) t.current.location) t)

theorem settled_of_stage (hplace : t.control.place = s.placeFor p)
    (hs : s = .operator → t.current.kind.isArithmetic) : t.settled = t.toDraft := by
  refine Draft.settle_of_settled ?_
  rw [hplace]
  exact Stage.settle_placeFor hs

theorem inHand_withDraft (t : Translation) (d : Draft) (i : ℕ) :
    (t.withDraft d).inHand i = t.inHand i := by
  match i with
  | 0 | 1 | _ + 2 => rfl

/-- When a fetch is made, the token in hand is written. -/
theorem toDraft_of_fetch {fault : Option Diagnostic} (hsettled : t.settled = t.toDraft)
    (hplace : t.control.place = s.placeFor p) (hfetch : t.written.fetch = (fault, u)) :
    u.toDraft = t.toDraft.emit t.current.text := by
  have h := toDraft_fetch t.written
  rw [hfetch] at h
  rw [h, written, hsettled]
  exact Draft.write_of_stage hplace _

/-- A token that is written, and behind which another one is fetched, is read over. -/
theorem readOver_of_fetch {place : Place} (hsettled : t.settled = t.toDraft)
    (hplace : t.control.place = s.placeFor p)
    (hdeclared : t.current.kind = .identifier → t.current.text ∈ t.names.variableNames)
    (hfetch : t.written.fetch = (none, u)) :
    ReadOver t [t.current]
      (u.withDraft { u.toDraft with control := ⟨place, t.control.blocks⟩ }) := by
  have hdraft := toDraft_of_fetch hsettled hplace hfetch
  have hsource : u.source = t.source.next.2 := by
    have h := source_fetch t.written
    rw [hfetch] at h
    exact h
  constructor
  case inHand =>
    intro i hi
    obtain rfl : i = 0 := Nat.lt_one_iff.mp hi
    rfl
  case behind =>
    intro i
    rw [inHand_withDraft, inHand_of_fetch hfetch, written, inHand_withDraft, Nat.add_comm]
    rfl
  case source => exact hsource
  case declared =>
    intro x hx
    rw [List.mem_singleton.mp hx]
    exact hdeclared
  case names =>
    show u.toDraft.names = t.names
    rw [hdraft]
    rfl
  case listing =>
    show u.toDraft.listing = _
    rw [hdraft, joinTexts_singleton]
    rfl
  case target =>
    show u.toDraft.target = t.target
    rw [hdraft]
    rfl
  case blocks => rfl

/-- What stands in the way of a fetch is a lexical fault. -/
theorem cause_of_fetch {d : Diagnostic} (h : t.fetch = (some d, u)) :
    ∃ fault, d.cause = .lexical fault := by
  refine Source.cause_of_next (s := t.source) ?_
  unfold fetch at h
  split at h
  · cases h
  · rename_i hnext
    obtain ⟨h, -⟩ := Prod.mk.inj h
    obtain rfl := Option.some.inj h
    rw [hnext]

/-- What is refused as no operand leaves the translation as it is. -/
theorem step_of_stage_refused (hsettled : t.settled = t.toDraft) {cause : Cause}
    (hcheck : t.toDraft.check t.current = .refused cause) :
    t.step = .failed (t.diagnose cause t.current.location) t := by
  rw [← hsettled] at hcheck
  rw [step_of_refused hcheck, hsettled]
  rfl

/-- A step in an expression reads over the token in hand, unless there is a fault behind it or it
is no operand. -/
theorem expressionStep (hplace : t.control.place = s.placeFor p)
    (hs : s = .operator → t.current.kind.isArithmetic) : ExpressionStep t s p t.step := by
  have hsettled := settled_of_stage hplace hs
  cases hnext : s.next? t.current.kind with
  | none =>
    have hoperand : s ≠ .operator := by
      rintro rfl
      rw [Stage.next?_operator (hs rfl)] at hnext
      cases hnext
    have hkind : t.current.kind ≠ .identifier := by
      intro hkind
      rw [Stage.next?_of_isOperand hoperand (by rw [hkind]; rfl)] at hnext
      cases hnext
    rw [step_of_stage_refused hsettled (Draft.check_of_next?_eq_none hplace hoperand hnext)]
    have hfault : operandFault t.current = .grammar (Expectation.operand.fault t.current) :=
      if_neg hkind
    rw [← hfault]
    exact .refused hoperand (.inl hnext)
  | some s' =>
    have hcheck := Draft.check_of_next? hplace hnext
    by_cases hname : t.current.kind = .identifier ∧ t.current.text ∉ t.names.variableNames
    · rw [if_pos hname] at hcheck
      rw [step_of_stage_refused hsettled hcheck]
      have hfault : operandFault t.current = .naming (.undeclaredVariable t.current.text) :=
        if_pos hname.1
      rw [← hfault]
      refine .refused ?_ (.inr hname)
      rintro rfl
      rw [hname.1] at hs
      cases hs rfl
    · rw [if_neg hname, ← hsettled] at hcheck
      rw [not_and, not_not] at hname
      rw [step_of_passed hcheck, consume, ← written]
      rcases hfetch : t.written.fetch with ⟨_ | d, u⟩
      all_goals
        have hdraft := toDraft_of_fetch hsettled hplace hfetch
        dsimp only
      · have hplace' : u.toDraft.control.place = s.placeFor p := by
          rw [hdraft]
          exact hplace
        rw [hsettled, Draft.finish_of_stage hplace']
        exact .taken hnext (readOver_of_fetch hsettled hplace hname hfetch) rfl
      · have hnames : u.names = t.names := by
          rw [hdraft]
          rfl
        have hlisting : u.listing = t.listing.emit t.current.text := by
          rw [hdraft]
          rfl
        exact .lexical (cause_of_fetch hfetch) hnames hlisting

/-! ## Whole expressions -/

theorem inExpression_iff (hplace : t.control.place = s.placeFor p) :
    t.inExpression ↔ (s = .operator → t.current.kind.isArithmetic) := by
  unfold inExpression
  rw [hplace]
  cases s with
  | operand | signed => exact ⟨fun _ => Stage.noConfusion, fun _ => rfl⟩
  | operator => exact ⟨fun h _ => h, fun h => h rfl⟩

theorem exists_stage_of_inExpression (h : t.inExpression) :
    ∃ (s : Stage) (p : Purpose), t.control.place = s.placeFor p := by
  unfold inExpression at h
  split at h
  · exact ⟨.operand, _, ‹_›⟩
  · exact ⟨.signed, _, ‹_›⟩
  · exact ⟨.operator, _, ‹_›⟩
  · cases h

theorem expression_of_running (hin : t.inExpression) (h : t.step = .running u) :
    t.expression = u.expression := by
  rw [expression, if_pos hin]
  split <;> rename_i hstep <;> rw [h] at hstep <;> cases hstep
  rfl

theorem expression_of_failed {d : Diagnostic} (hin : t.inExpression) (h : t.step = .failed d u) :
    t.expression = (some d, u) := by
  rw [expression, if_pos hin]
  split <;> rename_i hstep <;> rw [h] at hstep <;> cases hstep
  rfl

theorem expression_of_not_inExpression (h : ¬t.inExpression) : t.expression = (none, t) := by
  rw [expression, if_neg h]

/-- No program is complete in the middle of an expression. -/
theorem step_ne_complete (h : t.inExpression) : t.step ≠ .complete u := by
  obtain ⟨s, p, hplace⟩ := exists_stage_of_inExpression h
  have hstep := expressionStep hplace ((inExpression_iff hplace).mp h)
  intro hcomplete
  rw [hcomplete] at hstep
  cases hstep

/-- A run reads the expression that it is in, and goes on behind it. -/
theorem run_eq_resume (t : Translation) : t.run = resume t.expression := by
  induction t using expression.induct with
  | case1 t hin u hrunning ih =>
    rw [run_of_running hrunning, expression_of_running hin hrunning]
    exact ih
  | case2 t hin u hcomplete => exact absurd hcomplete (step_ne_complete hin)
  | case3 t hin d u hfailed =>
    rw [run_of_failed hfailed, expression_of_failed hin hfailed]
    rfl
  | case4 t hin =>
    rw [expression_of_not_inExpression hin]
    rfl

/-- What comes of reading an expression from a translation. -/
inductive ExpressionOutcome (t : Translation) (p : Purpose) :
    Option Diagnostic × Translation → Prop where
  /-- An expression has been read over, and none goes on with the token in hand. -/
  | returned {value : Expression} {u : Translation} (hread : ReadOver t value.tokens u)
    (hplace : u.control.place = .operator p) (hend : u.current.kind.isArithmetic = false)
    (hlongest : ∀ rest, ¬ IsExpression (value.tokens ++ u.current :: rest)) :
    ExpressionOutcome t p (none, u)
  /-- The tokens that have been read over want an operand, and the token in hand is none. -/
  | refused {ts : List Token} {u : Translation} (hread : ReadOver t ts u)
    (hwants : WantsOperand ts) (hunfit : ¬ Suits t.names ts u.current) :
    ExpressionOutcome t p
      (some (u.diagnose (operandFault u.current) u.current.location), u)
  /-- One more token has been written, and there is a fault behind it. -/
  | lexical {ts : List Token} {d : Diagnostic} {u v : Translation} (hread : ReadOver t ts v)
    (hcause : ∃ fault, d.cause = .lexical fault) (hnames : u.names = t.names)
    (hlisting : u.listing =
      ⟨t.listing.header, t.listing.body ++ joinTexts (ts ++ [v.current])⟩) :
    ExpressionOutcome t p (some d, u)

variable {before : List Token}

/-- What a stage does not allow suits no expression that wants an operand. -/
theorem not_suits_of_next? {token : Token} (hs : s ≠ .operator)
    (hfollow : Stage.operand.follow (before.map Token.kind) = some s)
    (h : s.next? token.kind = none) (names : Names) : ¬ Suits names before token := by
  have hoperand : ¬token.kind.isOperand = true := by
    intro hkind
    rw [Stage.next?_of_isOperand hs hkind] at h
    cases h
  rintro (hnumber | ⟨hname, -⟩ | ⟨-, rest, hrest⟩)
  · exact hoperand (by rw [hnumber]; rfl)
  · exact hoperand (by rw [hname]; rfl)
  · exact Stage.not_isExpression hfollow h rest hrest

/-- A name that is not declared suits no expression. -/
theorem not_suits_of_undeclared {names : Names} {token : Token} (hkind : token.kind = .identifier)
    (hname : token.text ∉ names.variableNames) : ¬ Suits names before token := by
  rw [Suits, hkind]
  rintro (hnumber | ⟨-, hdeclared⟩ | ⟨hsign, -⟩)
  · cases hnumber
  · exact hname hdeclared
  · cases hsign

/-- Wherever reading is in an expression, it goes on to its end, or to a fault. -/
theorem expressionOutcome_of_stage {t₀ : Translation} (hread : ReadOver t₀ before t)
    (hplace : t.control.place = s.placeFor p)
    (hfollow : Stage.operand.follow (before.map Token.kind) = some s) :
    ExpressionOutcome t₀ p t.expression := by
  -- what carries the induction is that the tokens read over so far lead to the stage
  induction t using expression.induct generalizing before s with
  | case1 t hin u hrunning ih =>
    have hstep := expressionStep hplace ((inExpression_iff hplace).mp hin)
    rw [hrunning] at hstep
    rw [expression_of_running hin hrunning]
    cases hstep with
    | taken hnext htaken hplace' =>
      refine ih (hread.append htaken) hplace' ?_
      rw [Stage.follow_map_concat hfollow, hnext]
  | case2 t hin u hcomplete => exact absurd hcomplete (step_ne_complete hin)
  | case3 t hin d u hfailed =>
    have hstep := expressionStep hplace ((inExpression_iff hplace).mp hin)
    rw [hfailed] at hstep
    rw [expression_of_failed hin hfailed]
    cases hstep with
    | lexical hcause hnames hlisting =>
      refine .lexical hread hcause (hnames.trans hread.names) ?_
      rw [hlisting, hread.listing, joinTexts_append, joinTexts_singleton, ← String.append_assoc]
      rfl
    | refused hoperand h =>
      refine .refused hread (Stage.wantsOperand hfollow hoperand) ?_
      rcases h with hnone | ⟨hkind, hname⟩
      · exact not_suits_of_next? hoperand hfollow hnone _
      · rw [hread.names] at hname
        exact not_suits_of_undeclared hkind hname
  | case4 t hin =>
    obtain ⟨rfl, hend⟩ := Classical.not_imp.mp ((inExpression_iff hplace).not.mp hin)
    obtain ⟨value, rfl⟩ := isExpression_iff.mpr hfollow
    rw [expression_of_not_inExpression hin]
    exact .returned hread hplace (Bool.eq_false_of_not_eq_true hend)
      (Stage.not_isExpression hfollow (if_neg hend))

/-! ## Expressions in a run -/

/-- A translation that has gone on to where an operand is read goes on as it would have. -/
theorem run_settled (hplace : t.settled.control.place = .operand p) :
    (t.withDraft t.settled).run = t.run := by
  have hsettled : (t.withDraft t.settled).settled = t.settled := by
    refine Draft.settle_of_settled ?_
    show Place.settle _ t.settled.control.place = t.settled.control.place
    rw [hplace]
    rfl
  refine run_of_step_eq ?_
  cases hcheck : t.settled.check t.current with
  | complete =>
    rw [step_of_complete hcheck, step_of_complete (by rw [hsettled]; exact hcheck), hsettled]
    rfl
  | refused cause =>
    rw [step_of_refused hcheck, step_of_refused (by rw [hsettled]; exact hcheck), hsettled]
    rfl
  | passed next =>
    rw [step_of_passed hcheck, step_of_passed (by rw [hsettled]; exact hcheck), hsettled]
    rfl

theorem atOperand_of_place (h : t.control.place = .operand p) : t.atOperand p = t := by
  unfold atOperand
  rw [← h]
  rfl

/-- From any translation in which an operand is due, an expression is read as far as it goes, or the
tokens that have been read over want an operand which the token in hand is not, or there is a
lexical fault; and wherever a run comes to an operand, it reads the expression and goes on behind
it. -/
theorem expression_outcome (t : Translation) (p : Purpose) :
    ExpressionOutcome (t.atOperand p) p (t.atOperand p).expression ∧
      (t.settled.control.place = .operand p →
        t.run = resume ((t.withDraft t.settled).atOperand p).expression) := by
  constructor
  · exact expressionOutcome_of_stage (s := .operand) (.refl _) rfl rfl
  · intro hplace
    rw [← run_settled hplace, atOperand_of_place hplace]
    exact run_eq_resume _

/-- A translation behind the word of a `PRINT`, whose value has two signs before its last operand. -/
def twoSigns : Translation where
  toDraft := ⟨.empty, .empty, ⟨.printItem, []⟩, ""⟩
  current := ⟨.number, "1", ⟨"a.tt", 1, 7⟩⟩
  upcoming := ⟨.operator .plus, "+", ⟨"a.tt", 1, 9⟩⟩
  source := (Source.ofString "a.tt" "PRINT 1 + - - 2").after 3

/-- The second sign is refused, and what stands before it has been written. -/
theorem expression_outcome_two_signs :
    twoSigns.settled.control.place = .operand .printed ∧
      ∃ d u, twoSigns.run = (some d, u) ∧
        ExpressionOutcome ((twoSigns.withDraft twoSigns.settled).atOperand .printed) .printed
          (some d, u) ∧
        d.cause = .grammar (.unexpectedToken "'-'" (some "a number or variable")) ∧
        u.listing.body = "printf(\"%.2f\\n\", (float)(1+-" := by
  have hplace : twoSigns.settled.control.place = .operand .printed := by rfl
  have hrun := (expression_outcome twoSigns .printed).2 hplace
  have houtcome := (expression_outcome (twoSigns.withDraft twoSigns.settled) .printed).1
  have hcause : ((twoSigns.withDraft twoSigns.settled).atOperand .printed).expression.1.map
      Diagnostic.cause = some (.grammar (.unexpectedToken "'-'" (some "a number or variable"))) := by
    cbv
  have hbody : ((twoSigns.withDraft twoSigns.settled).atOperand .printed).expression.2.listing.body =
      "printf(\"%.2f\\n\", (float)(1+-" := by
    cbv
  generalize ((twoSigns.withDraft twoSigns.settled).atOperand .printed).expression = result at *
  obtain ⟨_ | d, u⟩ := result
  · cases hcause
  · exact ⟨hplace, d, u, hrun, houtcome, Option.some.inj hcause, hbody⟩

end Translation
end PocketBasic

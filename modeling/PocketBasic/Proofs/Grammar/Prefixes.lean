import PocketBasic.Proofs.Grammar.Sentences

/-!
# Beginnings of sentences

The control has the correct-prefix property: what it has followed so far can always be completed
to a sentence, so the first token that it rejects is the first one with which no sentence goes
on.  There is no place at which reading can get stuck, since from every place a few tokens lead
to the end of the line, and from there the open blocks can be closed one after the other
(`Control.Completable`).

When the control rejects a token it names what it expected.  `Expectation.kinds` are the kinds
that are meant, and each of them could have stood in the place of the token
(`Control.exists_react_of_mem_kinds`).

Main statements: `begins_iff`, that the beginnings of sentences are what the control follows and
the sentences themselves; `not_begins_of_reject` and `begins_of_mem_kinds`, about a token that is
rejected and the kinds that are expected in its place.
-/

namespace PocketBasic

/-- Some sentence begins with some kinds of tokens. -/
def Begins (ks : List Kind) : Prop := ∃ rest, IsSentence (ks ++ rest)

namespace Control

variable {bs : List Block} {c next : Control} {k : Kind} {ks : List Kind}

/-! ## Completing a program -/

/-- Some kinds of tokens lead to a complete program. -/
def Completable (c : Control) : Prop :=
  ∃ ks c', c.follow ks = some c' ∧ c'.react .endOfInput = .complete

theorem Completable.of_proceed (h : next.Completable) (hk : c.react k = .proceed next) :
    c.Completable := by
  obtain ⟨ks, c', hc', hend⟩ := h
  exact ⟨k :: ks, c', by rw [follow_cons hk, hc'], hend⟩

/-- Where a statement may begin, the innermost block can be closed, and then the others. -/
theorem completable_of_ready {place : Place} (h : place.Ready) : Completable ⟨place, bs⟩ := by
  induction bs generalizing place with
  | nil =>
    refine ⟨[], _, rfl, ?_⟩
    rw [react_of_ready h Kind.noConfusion]
    rfl
  | cons b bs ih =>
    have hends : Completable ⟨.lineEnd false, bs⟩ :=
      (ih (Place.ready_blankLines false)).of_proceed (k := .newline) rfl
    exact hends.of_proceed ((react_of_ready h Kind.noConfusion).trans (react_closer b))

theorem completable_lineEnd (o : Bool) : Completable ⟨.lineEnd o, bs⟩ :=
  (completable_of_ready (Place.ready_blankLines o)).of_proceed (k := .newline) rfl

theorem completable_opener (b : Block) : Completable ⟨.opener b, bs⟩ :=
  (completable_lineEnd true).of_proceed (k := .keyword b.opener) (if_pos rfl)

/-- Behind an operand, what the expression is read for can be finished. -/
theorem completable_operator (p : Purpose) : Completable ⟨.operator p, bs⟩ := by
  have hcompared : ∀ b, Completable ⟨.operator (.compared b), bs⟩ := fun b =>
    (completable_lineEnd true).of_proceed (react_opener b)
  cases p with
  | printed | assigned =>
    exact (completable_of_ready (Place.ready_blankLines false)).of_proceed (k := .newline) rfl
  | compared b => exact hcompared b
  | tested b =>
    have hoperand : Completable ⟨.operand (.compared b), bs⟩ :=
      (hcompared b).of_proceed (k := .number) rfl
    exact hoperand.of_proceed (k := .operator .equal) rfl

theorem completable_operand (p : Purpose) : Completable ⟨.operand p, bs⟩ :=
  (completable_operator p).of_proceed (k := .number) rfl

/-- Reading never gets stuck. -/
theorem completable (c : Control) : c.Completable := by
  obtain ⟨place, bs⟩ := c
  have hequals : Completable ⟨.equalsSign, bs⟩ :=
    (completable_operand .assigned).of_proceed (k := .operator .assign) rfl
  cases place with
  | beginning => exact completable_of_ready Place.ready_beginning
  | statement => exact completable_of_ready Place.ready_statement
  | blankLines o => exact completable_of_ready (Place.ready_blankLines o)
  | lineEnd o => exact completable_lineEnd o
  | printItem => exact (completable_lineEnd false).of_proceed (k := .string) rfl
  | operand p => exact completable_operand p
  | signed p => exact (completable_operator p).of_proceed (k := .number) rfl
  | operator p => exact completable_operator p
  | opener b => exact completable_opener b
  | labelName | jumpName | inputName =>
    exact (completable_lineEnd false).of_proceed (k := .identifier) rfl
  | assignedName => exact hequals.of_proceed (k := .identifier) rfl
  | equalsSign => exact hequals

end Control

/-! ## Beginnings -/

variable {c next : Control} {ks : List Kind} {k : Kind} {e : Expectation}

/-- What has been followed can be completed. -/
theorem begins_of_follow (h : Control.start.follow ks = some c) : Begins ks := by
  obtain ⟨rest, c', hc', hend⟩ := c.completable
  refine ⟨rest ++ [.endOfInput], isSentence_iff.mpr ⟨ks ++ rest, c', ?_, ?_, hend⟩⟩
  · rw [List.append_assoc]
  · rw [Control.follow_append, h]
    exact hc'

/-- The beginnings of sentences are what the control follows, and the sentences themselves. -/
theorem begins_iff : Begins ks ↔ (∃ c, Control.start.follow ks = some c) ∨ IsSentence ks := by
  constructor
  · rintro ⟨rest, hrest⟩
    obtain ⟨body, c, hbody, hc, -⟩ := isSentence_iff.mp hrest
    rcases List.eq_nil_or_concat rest with rfl | ⟨more, last, rfl⟩
    · rw [List.append_nil] at hrest
      exact .inr hrest
    · rw [List.concat_eq_append, ← List.append_assoc] at hbody
      obtain ⟨rfl, -⟩ := List.append_inj' hbody rfl
      rw [Control.follow_append, Option.bind_eq_some_iff] at hc
      obtain ⟨c', hc', -⟩ := hc
      exact .inl ⟨c', hc'⟩
  · rintro (⟨c, hc⟩ | h)
    · exact begins_of_follow hc
    · exact ⟨[], by rwa [List.append_nil]⟩

theorem follow_concat (h : Control.start.follow ks = some c) (k : Kind) :
    Control.start.follow (ks ++ [k]) = c.follow [k] := by
  rw [Control.follow_append, h]
  rfl

/-- No sentence goes on with a token that is rejected. -/
theorem not_begins_of_reject (h : Control.start.follow ks = some c) (hk : c.react k = .reject e) :
    ¬ Begins (ks ++ [k]) := by
  rw [begins_iff, not_or, not_exists]
  constructor
  · intro c' hc'
    rw [follow_concat h] at hc'
    obtain ⟨next, hnext, -⟩ := Control.exists_of_follow_cons hc'
    rw [hk] at hnext
    cases hnext
  · -- a sentence of this form ends with the token, which would complete the program
    intro hsentence
    obtain ⟨body, c', hbody, hc', hend⟩ := isSentence_iff.mp hsentence
    obtain ⟨rfl, hlast⟩ := List.append_inj' hbody rfl
    obtain rfl : k = .endOfInput := List.singleton_inj.mp hlast
    obtain rfl : c = c' := Option.some.inj (h.symm.trans hc')
    rw [hk] at hend
    cases hend

/-! ## Expectations -/

/-- The kinds of tokens that an expectation names. -/
def Expectation.kinds : Expectation → List Kind
  | statement =>
    [.keyword .PRINT, .keyword .IF, .keyword .WHILE, .keyword .LABEL, .keyword .GOTO,
      .keyword .LET, .keyword .INPUT]
  | operand => [.number, .identifier]
  | comparison =>
    [.operator .equal, .operator .notEqual, .operator .less, .operator .lessEqual,
      .operator .greater, .operator .greaterEqual]
  | keyword k => [.keyword k]
  | newline => [.newline]
  | labelName | variableName => [.identifier]
  | equalsSign => [.operator .assign]

theorem Expectation.kinds_ne_nil (e : Expectation) : e.kinds ≠ [] := by
  cases e <;> exact List.cons_ne_nil _ _

namespace Control

/-- Where a statement is due, a statement is expected, or the end of the innermost block. -/
theorem expected_of_reactAtStatement {place : Place}
    (h : reactAtStatement ⟨place, bs⟩ k = .reject e) :
    e = .statement ∨ ∃ b outer, bs = b :: outer ∧ e = .keyword b.closer := by
  unfold reactAtStatement at h
  split at h
  case h_8 =>
    cases bs with
    | nil => cases h
    | cons b outer => exact .inr ⟨b, outer, rfl, (Verdict.reject.inj h).symm⟩
  case h_9 =>
    cases bs with
    | nil => exact .inl (Verdict.reject.inj h).symm
    | cons b outer =>
      dsimp only at h
      split at h
      · cases h
      · exact .inl (Verdict.reject.inj h).symm
  all_goals cases h

theorem exists_react_of_statement {place : Place} (hplace : place.Ready)
    (hk : reactAtStatement ⟨place, bs⟩ k = .reject e) {k' : Kind} (hk' : k' ∈ e.kinds) :
    ∃ next, react ⟨place, bs⟩ k' = .proceed next := by
  rcases expected_of_reactAtStatement hk with rfl | ⟨b, outer, rfl, rfl⟩
  · have hne : k' ≠ .newline := by
      rintro rfl
      simp [Expectation.kinds] at hk'
    rw [react_of_ready hplace hne]
    simp only [Expectation.kinds, List.mem_cons, List.not_mem_nil, or_false] at hk'
    rcases hk' with rfl | rfl | rfl | rfl | rfl | rfl | rfl
    all_goals exact ⟨_, rfl⟩
  · obtain rfl := List.mem_singleton.mp hk'
    exact ⟨_, (react_of_ready hplace Kind.noConfusion).trans (react_closer b)⟩

/-- Where line ends may stand too, a token that is no line end is read as a statement. -/
theorem exists_react_of_ready {place : Place} (hplace : place.Ready)
    (hnewline : react ⟨place, bs⟩ .newline ≠ .reject e)
    (hk : react ⟨place, bs⟩ k = .reject e) {k' : Kind} (hk' : k' ∈ e.kinds) :
    ∃ next, react ⟨place, bs⟩ k' = .proceed next := by
  have hne : k ≠ .newline := by
    rintro rfl
    exact hnewline hk
  rw [react_of_ready hplace hne] at hk
  exact exists_react_of_statement hplace hk hk'

/-- Where one kind of token is due, it is what is expected. -/
theorem exists_react_of_expect {due : Kind} {place : Place} {e' : Expectation}
    (hreact : ∀ k, c.react k = c.expect k due place e') (hdue : e'.kinds = [due])
    (hk : c.react k = .reject e) {k' : Kind} (hk' : k' ∈ e.kinds) :
    ∃ next, c.react k' = .proceed next := by
  obtain rfl : e' = e := by
    rw [hreact, expect] at hk
    split at hk
    · cases hk
    · exact Verdict.reject.inj hk
  rw [hdue, List.mem_singleton] at hk'
  exact ⟨_, (hreact k').trans (if_pos hk')⟩

/-- Behind an operand, the end of what the expression is read for is expected. -/
theorem exists_react_of_operator {p : Purpose} (hk : react ⟨.operator p, bs⟩ k = .reject e)
    {k' : Kind} (hk' : k' ∈ e.kinds) : ∃ next, react ⟨.operator p, bs⟩ k' = .proceed next := by
  have harithmetic : ¬ k.isArithmetic := by
    intro h
    rw [react_operator h] at hk
    cases hk
  have hcomparison : ∀ b, p = .tested b ∨ p = .compared b → ¬ k.isComparison := by
    intro b hp h
    rw [react_comparison hp h] at hk
    cases hk
  cases p with
  | printed | assigned =>
    rw [react, settle, Place.settle, if_neg harithmetic] at hk
    obtain rfl : Expectation.newline = e := by
      by_cases hnewline : k = .newline
      · subst hnewline
        cases hk
      · exact Verdict.reject.inj ((if_neg hnewline).symm.trans hk)
    obtain rfl := List.mem_singleton.mp hk'
    exact ⟨_, rfl⟩
  | tested b =>
    have hnone := hcomparison b (.inl rfl)
    have hsettled : reactAtOperator ⟨.operator (.tested b), bs⟩ k (.tested b) = .reject e := hk
    unfold reactAtOperator at hsettled
    rw [if_neg harithmetic] at hsettled
    obtain rfl := Verdict.reject.inj ((if_neg hnone).symm.trans hsettled)
    have hcompares : ∀ k ∈ Expectation.comparison.kinds, k.isComparison := by decide
    exact ⟨_, react_comparison (.inl rfl) (hcompares k' hk')⟩
  | compared b =>
    have hnone : ¬ (k.isArithmetic || k.isComparison) = true := by
      rw [Bool.or_eq_true, not_or]
      exact ⟨harithmetic, hcomparison b (.inr rfl)⟩
    have hopener : k ≠ .keyword b.opener := by
      rintro rfl
      rw [react_opener] at hk
      cases hk
    rw [react, settle, Place.settle, if_neg hnone] at hk
    obtain rfl := Verdict.reject.inj ((if_neg hopener).symm.trans hk)
    obtain rfl := List.mem_singleton.mp hk'
    exact ⟨_, react_opener b⟩

/-- Where an operand is due, it is what is expected. -/
theorem eq_operand_of_reject {p : Purpose} (hk : reactSettled ⟨.operand p, bs⟩ k = .reject e ∨
    reactSettled ⟨.signed p, bs⟩ k = .reject e) : e = .operand := by
  rcases hk with hk | hk
  all_goals dsimp only [reactSettled] at hk
  · split at hk
    · cases hk
    · split at hk
      · cases hk
      · exact (Verdict.reject.inj hk).symm
  · split at hk
    · cases hk
    · exact (Verdict.reject.inj hk).symm

theorem eq_or_eq_of_mem_operand {k : Kind} (h : k ∈ Expectation.operand.kinds) :
    k = .number ∨ k = .identifier := by
  simpa [Expectation.kinds] using h

/-- Whatever is expected where a token is rejected could have been read there. -/
theorem exists_react_of_mem_kinds (hk : c.react k = .reject e) {k' : Kind} (hk' : k' ∈ e.kinds) :
    ∃ next, c.react k' = .proceed next := by
  obtain ⟨place, bs⟩ := c
  cases place with
  | statement => exact exists_react_of_statement Place.ready_statement hk hk'
  | labelName | jumpName | assignedName | equalsSign | inputName | lineEnd =>
    exact exists_react_of_expect (fun _ => rfl) rfl hk hk'
  | operator p => exact exists_react_of_operator hk hk'
  | opener b =>
    by_cases hopener : k = .keyword b.opener
    · exact absurd ((if_pos hopener).symm.trans hk) Verdict.noConfusion
    · obtain rfl := Verdict.reject.inj ((if_neg hopener).symm.trans hk)
      obtain rfl := List.mem_singleton.mp hk'
      exact ⟨_, if_pos rfl⟩
  | operand p =>
    obtain rfl := eq_operand_of_reject (.inl hk)
    rcases eq_or_eq_of_mem_operand hk' with rfl | rfl
    all_goals exact ⟨_, rfl⟩
  | signed p =>
    obtain rfl := eq_operand_of_reject (.inr hk)
    rcases eq_or_eq_of_mem_operand hk' with rfl | rfl
    all_goals exact ⟨_, rfl⟩
  | printItem =>
    by_cases hstring : k = .string
    · subst hstring
      cases hk
    · rw [react, settle, Place.settle, if_neg hstring] at hk
      obtain rfl := eq_operand_of_reject (.inl hk)
      rcases eq_or_eq_of_mem_operand hk' with rfl | rfl
      all_goals exact ⟨_, rfl⟩
  | beginning => exact exists_react_of_ready Place.ready_beginning Verdict.noConfusion hk hk'
  | blankLines o =>
    exact exists_react_of_ready (Place.ready_blankLines o) Verdict.noConfusion hk hk'

end Control

/-- A sentence could go on with whatever is expected in the place of a token. -/
theorem begins_of_mem_kinds (h : Control.start.follow ks = some c) (hk : c.react k = .reject e)
    {k' : Kind} (hk' : k' ∈ e.kinds) : Begins (ks ++ [k']) := by
  obtain ⟨next, hnext⟩ := Control.exists_react_of_mem_kinds hk hk'
  refine begins_of_follow (c := next) ?_
  rw [follow_concat h, Control.follow_cons hnext]
  rfl

end PocketBasic

import PocketBasic.Grammar.Control
import PocketBasic.Proofs.Syntax.Tree

/-!
# What the control does at each place

The control reacts to a kind of token at a settled place in one of three ways, and the first
two of them say much about the place and the kind.  A program is complete only at the end of
the input, before a statement and outside of all blocks (`reactSettled_eq_complete_iff`).  The
ways in which reading goes on are listed once (`Step`), and whatever is said of all of them is
said by cases on that list.
-/

namespace PocketBasic
namespace Control

/-! ## Complete programs -/

/-- A program is complete at the end of the input, where a statement may begin and no
block is open. -/
theorem reactAtStatement_eq_complete_iff {c : Control} {k : Kind} :
    c.reactAtStatement k = .complete ↔ k = .endOfInput ∧ c.blocks = [] := by
  obtain ⟨place, blocks⟩ := c
  constructor
  · intro h
    unfold reactAtStatement at h
    split at h
    case h_8 =>
      cases blocks with
      | nil => exact ⟨rfl, rfl⟩
      | cons b outer => cases h
    case h_9 =>
      cases blocks with
      | nil => cases h
      | cons b outer => dsimp only at h; split at h <;> cases h
    all_goals cases h
  · rintro ⟨rfl, hblocks⟩
    obtain rfl : blocks = [] := hblocks
    rfl

theorem expect_ne_complete (c : Control) (k due : Kind) (place : Place) (e : Expectation) :
    c.expect k due place e ≠ .complete := by
  unfold expect
  split <;> exact fun h => Verdict.noConfusion h

theorem reactAtOperator_ne_complete (c : Control) (k : Kind) (p : Purpose) :
    c.reactAtOperator k p ≠ .complete := by
  unfold reactAtOperator
  split
  · exact fun h => Verdict.noConfusion h
  · split
    · split <;> exact fun h => Verdict.noConfusion h
    · split <;> exact fun h => Verdict.noConfusion h
    · exact fun h => Verdict.noConfusion h
    · exact fun h => Verdict.noConfusion h

theorem reactSettled_eq_complete_iff {c : Control} {k : Kind} :
    c.reactSettled k = .complete ↔ c.place = .statement ∧ k = .endOfInput ∧ c.blocks = [] := by
  constructor
  · intro h
    unfold reactSettled at h
    split at h
    case h_2 hplace => exact ⟨hplace, reactAtStatement_eq_complete_iff.mp h⟩
    case h_4 => split at h <;> first | cases h | (split at h <;> cases h)
    case h_5 => split at h <;> cases h
    case h_6 => exact absurd h (reactAtOperator_ne_complete _ _ _)
    case h_7 => split at h <;> cases h
    all_goals exact absurd h (expect_ne_complete _ _ _ _ _)
  · rintro ⟨hplace, hk, hblocks⟩
    unfold reactSettled
    rw [hplace]
    exact reactAtStatement_eq_complete_iff.mpr ⟨hk, hblocks⟩

/-! ## Going on -/

/-- How reading goes on from a settled place, with given blocks open. -/
inductive Step (bs : List Block) : Place → Kind → Control → Prop where
  | beginning : Step bs .beginning .newline ⟨.beginning, bs⟩
  | print : Step bs .statement (.keyword .PRINT) ⟨.printItem, bs⟩
  | block (b : Block) : Step bs .statement (.keyword b.word) ⟨.operand (.tested b), bs⟩
  | label : Step bs .statement (.keyword .LABEL) ⟨.labelName, bs⟩
  | jump : Step bs .statement (.keyword .GOTO) ⟨.jumpName, bs⟩
  | assign : Step bs .statement (.keyword .LET) ⟨.assignedName, bs⟩
  | input : Step bs .statement (.keyword .INPUT) ⟨.inputName, bs⟩
  | close (b : Block) (outer : List Block) (h : bs = b :: outer) :
    Step bs .statement (.keyword b.closer) ⟨.lineEnd false, outer⟩
  | string : Step bs .printItem .string ⟨.lineEnd false, bs⟩
  | sign (p : Purpose) {k : Kind} (h : k.isSign) : Step bs (.operand p) k ⟨.signed p, bs⟩
  | operand (p : Purpose) {k : Kind} (h : k.isOperand) : Step bs (.operand p) k ⟨.operator p, bs⟩
  | signed (p : Purpose) {k : Kind} (h : k.isOperand) : Step bs (.signed p) k ⟨.operator p, bs⟩
  | operator (p : Purpose) {k : Kind} (h : k.isArithmetic) :
    Step bs (.operator p) k ⟨.operand p, bs⟩
  | tested (b : Block) {k : Kind} (h : k.isComparison) :
    Step bs (.operator (.tested b)) k ⟨.operand (.compared b), bs⟩
  | compared (b : Block) {k : Kind} (h : k.isComparison) :
    Step bs (.operator (.compared b)) k ⟨.operand (.compared b), bs⟩
  | opener (b : Block) : Step bs (.opener b) (.keyword b.opener) ⟨.lineEnd true, b :: bs⟩
  | labelName : Step bs .labelName .identifier ⟨.lineEnd false, bs⟩
  | jumpName : Step bs .jumpName .identifier ⟨.lineEnd false, bs⟩
  | assignedName : Step bs .assignedName .identifier ⟨.equalsSign, bs⟩
  | equalsSign : Step bs .equalsSign (.operator .assign) ⟨.operand .assigned, bs⟩
  | inputName : Step bs .inputName .identifier ⟨.lineEnd false, bs⟩
  | lineEnd (o : Bool) : Step bs (.lineEnd o) .newline ⟨.blankLines o, bs⟩
  | blankLines (o : Bool) : Step bs (.blankLines o) .newline ⟨.blankLines o, bs⟩

variable {bs : List Block} {place : Place} {k : Kind} {next : Control}

theorem eq_proceed_of_expect {c : Control} {due : Kind} {place' : Place} {e : Expectation}
    (h : c.expect k due place' e = .proceed next) : k = due ∧ next = ⟨place', c.blocks⟩ := by
  unfold expect at h
  split at h
  · rename_i hk
    exact ⟨hk, (Verdict.proceed.inj h).symm⟩
  · cases h

theorem Step.of_reactAtStatement (h : reactAtStatement ⟨place, bs⟩ k = .proceed next) :
    Step bs .statement k next := by
  unfold reactAtStatement at h
  split at h
  case h_1 => obtain rfl := Verdict.proceed.inj h; exact .print
  case h_2 => obtain rfl := Verdict.proceed.inj h; exact .block .conditional
  case h_3 => obtain rfl := Verdict.proceed.inj h; exact .block .loop
  case h_4 => obtain rfl := Verdict.proceed.inj h; exact .label
  case h_5 => obtain rfl := Verdict.proceed.inj h; exact .jump
  case h_6 => obtain rfl := Verdict.proceed.inj h; exact .assign
  case h_7 => obtain rfl := Verdict.proceed.inj h; exact .input
  case h_8 => cases bs <;> cases h
  case h_9 =>
    cases bs with
    | nil => cases h
    | cons b outer =>
      dsimp only at h
      split at h
      · rename_i hk
        obtain rfl := Verdict.proceed.inj h
        rw [hk]
        exact .close b outer rfl
      · cases h

theorem Step.of_reactAtOperator {p : Purpose}
    (h : reactAtOperator ⟨place, bs⟩ k p = .proceed next) : Step bs (.operator p) k next := by
  unfold reactAtOperator at h
  split at h
  · rename_i hk
    obtain rfl := Verdict.proceed.inj h
    exact .operator p hk
  · cases p with
    | printed | assigned => cases h
    | tested b =>
      dsimp only at h
      split at h
      · rename_i hk
        obtain rfl := Verdict.proceed.inj h
        exact .tested b hk
      · cases h
    | compared b =>
      dsimp only at h
      split at h
      · rename_i hk
        obtain rfl := Verdict.proceed.inj h
        exact .compared b hk
      · cases h

/-- Reading goes on in one of the listed ways. -/
theorem Step.of_reactSettled (h : reactSettled ⟨place, bs⟩ k = .proceed next) :
    Step bs place k next := by
  cases place with
  | statement => exact .of_reactAtStatement h
  | operator p => exact .of_reactAtOperator h
  | operand p =>
    dsimp only [reactSettled] at h
    split at h
    · rename_i hk
      obtain rfl := Verdict.proceed.inj h
      exact .sign p hk
    · split at h
      · rename_i hk
        obtain rfl := Verdict.proceed.inj h
        exact .operand p hk
      · cases h
  | signed p =>
    dsimp only [reactSettled] at h
    split at h
    · rename_i hk
      obtain rfl := Verdict.proceed.inj h
      exact .signed p hk
    · cases h
  | opener b =>
    dsimp only [reactSettled] at h
    split at h
    · rename_i hk
      obtain rfl := Verdict.proceed.inj h
      rw [hk]
      exact .opener b
    · cases h
  | beginning => obtain ⟨rfl, rfl⟩ := eq_proceed_of_expect h; exact .beginning
  | printItem => obtain ⟨rfl, rfl⟩ := eq_proceed_of_expect h; exact .string
  | labelName => obtain ⟨rfl, rfl⟩ := eq_proceed_of_expect h; exact .labelName
  | jumpName => obtain ⟨rfl, rfl⟩ := eq_proceed_of_expect h; exact .jumpName
  | assignedName => obtain ⟨rfl, rfl⟩ := eq_proceed_of_expect h; exact .assignedName
  | equalsSign => obtain ⟨rfl, rfl⟩ := eq_proceed_of_expect h; exact .equalsSign
  | inputName => obtain ⟨rfl, rfl⟩ := eq_proceed_of_expect h; exact .inputName
  | lineEnd o => obtain ⟨rfl, rfl⟩ := eq_proceed_of_expect h; exact .lineEnd o
  | blankLines o => obtain ⟨rfl, rfl⟩ := eq_proceed_of_expect h; exact .blankLines o

end Control

/-! ## Settling -/

namespace Place

/-- How a place is left before a token of a kind is read, because a rule is over. -/
inductive Settling (k : Kind) : Place → Place → Prop where
  | stay (place : Place) : Settling k place place
  | beginning (h : k ≠ .newline) : Settling k .beginning .statement
  | blankLines (o : Bool) (h : k ≠ .newline) : Settling k (.blankLines o) .statement
  | value (h : k ≠ .string) : Settling k .printItem (.operand .printed)
  | printed (h : ¬ k.isArithmetic) : Settling k (.operator .printed) (.lineEnd false)
  | assigned (h : ¬ k.isArithmetic) : Settling k (.operator .assigned) (.lineEnd false)
  | opener (b : Block) (h : ¬ k.isArithmetic) : Settling k (.operator (.compared b)) (.opener b)

/-- A place is left in one of the listed ways. -/
theorem settling_settle (k : Kind) (place : Place) : Settling k place (place.settle k) := by
  unfold settle
  split
  case h_7 => exact .stay _
  case h_6 =>
    split
    · exact .stay _
    · rename_i hk
      rw [Bool.or_eq_true, not_or] at hk
      exact .opener _ hk.1
  all_goals
    split
    · exact .stay _
    · constructor
      assumption

end Place
end PocketBasic

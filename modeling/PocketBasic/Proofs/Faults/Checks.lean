import Mathlib.Data.List.DropRight
import PocketBasic.Proofs.Grammar.Sentences
import PocketBasic.Proofs.Translation.Reading

/-!
# The checks of a list of tokens

Three things are checked of a token: it must fit the grammar, it must be declared if it is a
variable in use, and it must be new if it is the name of a label.  All three are said here of
the token and the tokens before it, without any draft.

The checks have an order.  Every check has the token that is in hand when it is made: for the
grammar and for variables that is the token itself, and for a label it is the token behind the
name.  Checks with the same token in hand are made in the order label, grammar, variable
(`faultAt`).  `firstFault ts n` is the first fault of all checks that are made with one of the
first `n` tokens in hand.
-/

namespace PocketBasic

/-! ## Names in a list of tokens -/

/-- Whether some tokens end with a keyword. -/
def endsWith (ts : List Token) (k : Keyword) : Bool := ts.getLast?.any fun w => w.kind = .keyword k

/-- The names that stand right behind a keyword. -/
def namesBehind (k : Keyword) : List Token → List Token
  | w :: t :: rest =>
    if w.kind = .keyword k ∧ t.kind = .identifier then t :: namesBehind k (t :: rest)
    else namesBehind k (t :: rest)
  | _ => []

/-- Some tokens up to the last line end among them. -/
def closedLines (ts : List Token) : List Token := ts.rdropWhile fun t => t.kind ≠ .newline

/-- The variables that have been given a value: those behind `INPUT`, and those behind `LET` in
lines that have ended. -/
def assignedIn (ts : List Token) : List String :=
  (namesBehind .INPUT ts ++ namesBehind .LET (closedLines ts)).map Token.text

theorem mem_assignedIn {ts : List Token} {x : String} :
    x ∈ assignedIn ts ↔ x ∈ (namesBehind .INPUT ts).map Token.text ∨
      x ∈ (namesBehind .LET (closedLines ts)).map Token.text := by
  rw [assignedIn, List.map_append, List.mem_append]

/-- A token behind other tokens is a variable in use if it is an identifier that no keyword
makes the name of something. -/
def isUse (before : List Token) (t : Token) : Bool :=
  t.kind = .identifier && !endsWith before .LABEL && !endsWith before .GOTO &&
    !endsWith before .LET && !endsWith before .INPUT

@[simp] theorem endsWith_concat (ts : List Token) (t : Token) (k : Keyword) :
    endsWith (ts ++ [t]) k = decide (t.kind = .keyword k) := by
  rw [endsWith, List.getLast?_append, List.getLast?_singleton]
  rfl

theorem namesBehind_concat (k : Keyword) (ts : List Token) (t : Token) :
    namesBehind k (ts ++ [t]) =
      namesBehind k ts ++ if endsWith ts k ∧ t.kind = .identifier then [t] else [] := by
  induction ts with
  | nil => rfl
  | cons w ts ih =>
    cases ts with
    | nil =>
      have hends : endsWith [w] k = decide (w.kind = .keyword k) := rfl
      rw [hends]
      simp only [decide_eq_true_eq]
      rfl
    | cons u rest =>
      have hends : endsWith (w :: u :: rest) k = endsWith (u :: rest) k := rfl
      rw [List.cons_append, List.cons_append, namesBehind, ← List.cons_append, ih, namesBehind, hends]
      split <;> rfl

/-- What stands behind a keyword as a name is an identifier of the list. -/
theorem mem_namesBehind {k : Keyword} {ts : List Token} {t : Token} (h : t ∈ namesBehind k ts) :
    t ∈ ts ∧ t.kind = .identifier := by
  fun_induction namesBehind k ts with
  | case1 w u rest hu ih =>
    rcases List.mem_cons.mp h with rfl | h
    · exact ⟨List.mem_cons_of_mem _ List.mem_cons_self, hu.2⟩
    · exact ⟨List.mem_cons_of_mem _ (ih h).1, (ih h).2⟩
  | case2 w u rest hu ih => exact ⟨List.mem_cons_of_mem _ (ih h).1, (ih h).2⟩
  | case3 => cases h

theorem closedLines_concat_newline (ts : List Token) {t : Token} (ht : t.kind = .newline) :
    closedLines (ts ++ [t]) = ts ++ [t] := by
  rw [closedLines, List.rdropWhile_concat_neg]
  simp [ht]

theorem closedLines_concat (ts : List Token) {t : Token} (ht : t.kind ≠ .newline) :
    closedLines (ts ++ [t]) = closedLines ts := by
  rw [closedLines, List.rdropWhile_concat_pos, closedLines]
  simp [ht]

/-! ## The checks -/

/-- The fault of a token that does not fit the tokens before it. -/
def grammarFault? (before : List Token) (t : Token) : Option Fault :=
  match Control.start.follow (before.map Token.kind) with
  | none => none
  | some c =>
    match c.react t.kind with
    | .reject e => some (.grammar (e.fault t), t.location)
    | _ => none

/-- The fault of a variable that is used before it is given a value. -/
def variableFault? (before : List Token) (t : Token) : Option Fault :=
  if isUse before t ∧ t.text ∉ assignedIn before then
    some (.naming (.undeclaredVariable t.text), t.location)
  else none

/-- The fault of a label that has the name of an earlier one.  It cites the first label of that
name. -/
def labelFault? (before : List Token) (t : Token) : Option Fault :=
  if endsWith before .LABEL ∧ t.kind = .identifier then
    ((namesBehind .LABEL before).find? fun first => first.text = t.text).map fun first =>
      (.naming (.duplicateLabel t.text (some first.location)), t.location)
  else none

/-- A check of one token of a list, by its number. -/
def checkAt (check : List Token → Token → Option Fault) (ts : List Token) (i : Nat) :
    Option Fault :=
  ts[i]?.bind (check (ts.take i))

/-- The check of a label that is made with a token in hand: that of the token before it. -/
def labelCheckAt (ts : List Token) : Nat → Option Fault
  | 0 => none
  | j + 1 => checkAt labelFault? ts j

/-- The first fault of the checks that are made with a token in hand. -/
def faultAt (ts : List Token) (i : Nat) : Option Fault :=
  (labelCheckAt ts i).or ((checkAt grammarFault? ts i).or (checkAt variableFault? ts i))

/-- The first fault of the checks that are made with one of the first `n` tokens in hand. -/
def firstFault (ts : List Token) (n : Nat) : Option Fault := (List.range n).findSome? (faultAt ts)

theorem checkAt_append (check : List Token → Token → Option Fault) (before : List Token)
    (t : Token) (behind : List Token) :
    checkAt check (before ++ t :: behind) before.length = check before t := by
  rw [checkAt, List.getElem?_append_right (Nat.le_refl _), Nat.sub_self, List.getElem?_cons_zero,
    Option.bind_some, List.take_left]

theorem firstFault_succ (ts : List Token) (n : Nat) :
    firstFault ts (n + 1) = (firstFault ts n).or (faultAt ts n) := by
  rw [firstFault, List.range_succ, List.findSome?_append, List.findSome?_singleton]
  rfl

/-- A fault that no other fault comes before is the first one. -/
theorem firstFault_eq_some {ts : List Token} {i n : Nat} {fault : Fault}
    (h : firstFault ts i = none) (hfault : faultAt ts i = some fault) (hi : i < n) :
    firstFault ts n = some fault := by
  induction n with
  | zero => exact absurd hi (Nat.not_lt_zero i)
  | succ n ih =>
    rw [firstFault_succ]
    rcases Nat.lt_or_eq_of_le (Nat.le_of_lt_succ hi) with hlt | rfl
    · rw [ih hlt, Option.some_or]
    · rw [h, hfault, Option.none_or]

theorem exists_of_checkAt {check : List Token → Token → Option Fault} {ts : List Token} {i : Nat}
    {fault : Fault} (h : checkAt check ts i = some fault) :
    ∃ before t behind, ts = before ++ t :: behind ∧ check before t = some fault := by
  obtain ⟨t, ht, hcheck⟩ := Option.bind_eq_some_iff.mp h
  obtain ⟨hi, rfl⟩ := List.getElem?_eq_some_iff.mp ht
  refine ⟨ts.take i, ts[i], ts.drop (i + 1), ?_, hcheck⟩
  rw [← List.drop_eq_getElem_cons hi, List.take_append_drop]

/-- The first fault comes from one of the three checks of a token. -/
theorem exists_of_firstFault {ts : List Token} {n : Nat} {fault : Fault}
    (h : firstFault ts n = some fault) :
    ∃ before t behind, ts = before ++ t :: behind ∧ (labelFault? before t = some fault ∨
      grammarFault? before t = some fault ∨ variableFault? before t = some fault) := by
  obtain ⟨i, -, hi⟩ := List.exists_of_findSome?_eq_some h
  rw [faultAt, Option.or_eq_some_iff, Option.or_eq_some_iff] at hi
  rcases hi with hlabel | ⟨-, hgrammar | ⟨-, hvariable⟩⟩
  · cases i with
    | zero => cases hlabel
    | succ j =>
      obtain ⟨before, t, behind, hts, ht⟩ := exists_of_checkAt hlabel
      exact ⟨before, t, behind, hts, .inl ht⟩
  · obtain ⟨before, t, behind, hts, ht⟩ := exists_of_checkAt hgrammar
    exact ⟨before, t, behind, hts, .inr (.inl ht)⟩
  · obtain ⟨before, t, behind, hts, ht⟩ := exists_of_checkAt hvariable
    exact ⟨before, t, behind, hts, .inr (.inr ht)⟩

/-! ## What the faults are -/

section
variable {before : List Token} {t : Token} {fault : Fault}

/-- A token does not fit if the control rejects it behind the tokens before it. -/
theorem exists_of_grammarFault? (h : grammarFault? before t = some fault) :
    ∃ c e, Control.start.follow (before.map Token.kind) = some c ∧ c.react t.kind = .reject e ∧
      fault = (.grammar (e.fault t), t.location) := by
  unfold grammarFault? at h
  split at h
  · cases h
  · rename_i c hc
    split at h
    · rename_i e hreject
      exact ⟨c, e, hc, hreject, (Option.some.inj h).symm⟩
    · cases h

theorem eq_of_variableFault? (h : variableFault? before t = some fault) :
    t.kind = .identifier ∧ fault = (.naming (.undeclaredVariable t.text), t.location) := by
  unfold variableFault? at h
  split at h
  · rename_i huse
    have hk : t.kind = .identifier := by
      have hall := huse.1
      simp only [isUse, Bool.and_eq_true, decide_eq_true_eq] at hall
      exact hall.1.1.1.1
    exact ⟨hk, (Option.some.inj h).symm⟩
  · cases h

theorem exists_of_labelFault? (h : labelFault? before t = some fault) :
    t.kind = .identifier ∧ ∃ first ∈ namesBehind .LABEL before,
      fault = (.naming (.duplicateLabel t.text (some first.location)), t.location) := by
  unfold labelFault? at h
  split at h
  · rename_i hlabel
    obtain ⟨first, hfirst, rfl⟩ := Option.map_eq_some_iff.mp h
    exact ⟨hlabel.2, first, List.mem_of_find?_eq_some hfirst, rfl⟩
  · cases h

end

/-- None of the checks is about jumps. -/
theorem firstFault_ne_undeclaredLabel {ts : List Token} {n : Nat} {fault : Fault}
    (h : firstFault ts n = some fault) (name : String) :
    fault.1 ≠ .naming (.undeclaredLabel name) := by
  obtain ⟨before, t, behind, -, hlabel | hgrammar | hvariable⟩ := exists_of_firstFault h
  · obtain ⟨-, first, -, rfl⟩ := exists_of_labelFault? hlabel
    simp
  · obtain ⟨c, e, -, -, rfl⟩ := exists_of_grammarFault? hgrammar
    simp
  · obtain ⟨-, rfl⟩ := eq_of_variableFault? hvariable
    simp

/-- The first jump to a name that is not the name of a label. -/
def danglingJump? (ts : List Token) : Option Token :=
  (namesBehind .GOTO ts).find? fun t => t.text ∉ (namesBehind .LABEL ts).map Token.text

end PocketBasic

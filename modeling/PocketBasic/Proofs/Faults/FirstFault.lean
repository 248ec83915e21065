import Mathlib
import PocketBasic.Proofs.Faults.Progress

/-!
# Which fault is reported

The fault that a source is rejected for is the first one of its checks, in the order in which
they are made.  Jumps are looked at when all checks have passed.  A lexical fault behind `k`
tokens hides all checks that are not made with one of the first `k - 1` tokens in hand, and
the jumps.

The proof has two parts.  A draft gives up where a list of tokens is given up
(`Draft.Tracks.translate_eq_error`, `Draft.Tracks.translate_eq_concludeAt`), and the list is
given up with its first fault (`stop_none_eq`, `stop_some_eq`).

Main statement: `compile_first_fault`.
-/

namespace PocketBasic

namespace Draft.Tracks

variable {d e : Draft} {t : Token} {next : Control} {before : List Token}

/-! ## The checks of a draft -/

theorem grammarFault?_eq (h : d.Tracks before) (t : Token) :
    grammarFault? before t = match d.control.react t.kind with
      | .reject e => some (.grammar (e.fault t), t.location)
      | _ => none := by
  unfold grammarFault?
  cases hreact : d.control.react t.kind <;> simp only [h.control, hreact]

/-- An identifier is read as an operand or as a name behind a keyword. -/
theorem isUse_eq_true_iff (h : d.Tracks before)
    (hstep : Control.Step d.control.blocks (d.control.place.settle t.kind) t.kind next) :
    isUse before t = true ↔ t.kind = .identifier ∧ ∃ p,
      d.control.place.settle t.kind = .operand p ∨ d.control.place.settle t.kind = .signed p := by
  have hname : ∀ {w place}, Keyword.namePlace? w = some place → t.kind = .identifier →
      (endsWith before w = true ↔ d.control.place.settle t.kind = place) := by
    intro w place hw hk
    rw [← h.isName_iff hstep hw, and_iff_left hk]
  simp only [isUse, Bool.and_eq_true, Bool.not_eq_true', decide_eq_true_eq, and_assoc]
  refine and_congr_right ?_
  intro hk
  simp only [← Bool.not_eq_true, hname (w := .LABEL) rfl hk, hname (w := .GOTO) rfl hk,
    hname (w := .LET) rfl hk, hname (w := .INPUT) rfl hk]
  generalize d.control.place.settle t.kind = settled at hstep
  rw [hk] at hstep
  cases hstep with
  | operand p | signed p => simp
  | labelName | jumpName | assignedName | inputName => simp
  | sign _ hk | operator _ hk | tested _ hk | compared _ hk => cases hk

/-- Where a variable is used, the declared variables are those that have been given a value. -/
theorem mem_variableNames_of_operand (h : d.Tracks before) {k : Kind} {p : Purpose}
    (hplace : d.control.place.settle k = .operand p ∨ d.control.place.settle k = .signed p)
    (x : String) : x ∈ (d.settle k).names.variableNames ↔ x ∈ assignedIn before := by
  have hassigned : ¬ (d.control.place = .operator .assigned ∧ ¬ k.isArithmetic) := by
    rintro ⟨hassigned, hk⟩
    have hsettled : d.control.place.settle k = .lineEnd false := by
      rw [hassigned]
      exact if_neg hk
    rw [hsettled] at hplace
    rcases hplace with hplace | hplace <;> cases hplace
  rw [(Draft.settle_of_not_assigned hassigned).1, h.declared]

theorem variableFault?_eq (h : d.Tracks before) (hreact : d.control.react t.kind = .proceed next) :
    variableFault? before t =
      ((d.settle t.kind).useFault? t).map fun fault => (.naming fault, t.location) := by
  have huse := h.isUse_eq_true_iff (Control.Step.of_reactSettled hreact)
  by_cases hoperand : isUse before t = true
  · obtain ⟨hk, p, hplace⟩ := huse.mp hoperand
    have hmem := h.mem_variableNames_of_operand hplace t.text
    have hcheck : (d.settle t.kind).useFault? t =
        if t.text ∈ (d.settle t.kind).names.variableNames then none
        else some (.undeclaredVariable t.text) := by
      rcases hplace with hplace | hplace
      all_goals
        change (d.settle t.kind).control.place = _ at hplace
        rw [Draft.useFault?, hplace, hk]
    rw [hcheck, variableFault?]
    by_cases hdeclared : t.text ∈ assignedIn before
    · rw [if_pos (hmem.mpr hdeclared), if_neg fun hfault => hfault.2 hdeclared]
      rfl
    · rw [if_neg fun hd => hdeclared (hmem.mp hd), if_pos ⟨hoperand, hdeclared⟩]
      rfl
  · have hcheck : (d.settle t.kind).useFault? t = none := by
      unfold Draft.useFault?
      split
      · rename_i p hplace hk
        exact absurd (huse.mpr ⟨hk, p, .inl hplace⟩) hoperand
      · rename_i p hplace hk
        exact absurd (huse.mpr ⟨hk, p, .inr hplace⟩) hoperand
      · rfl
    rw [hcheck, variableFault?, if_neg fun hfault => hoperand hfault.1]
    rfl

/-- The first label of a name is found in the table of labels. -/
theorem lookup_labels (ts : List Token) (name : String) :
    (ts.map fun t => (t.text, t.location)).lookup name =
      (ts.find? fun t => t.text = name).map Token.location := by
  induction ts with
  | nil => rfl
  | cons t ts ih =>
    rw [List.map_cons, List.lookup_cons, List.find?_cons]
    by_cases hname : t.text = name
    · simp [hname]
    · have hne : (name == t.text) = false := beq_eq_false_iff_ne.mpr (Ne.symm hname)
      rw [hne, decide_eq_false hname]
      exact ih

theorem labelFault?_eq (h : d.Tracks before) (hreact : d.control.react t.kind = .proceed next) :
    labelFault? before t = match ((d.settle t.kind).write t).finish t next with
      | .error fault => some (.naming fault, t.location)
      | .ok _ => none := by
  have hstep := Control.Step.of_reactSettled hreact
  have hname := h.isName_iff hstep (w := .LABEL) rfl
  have hlookup := lookup_labels (namesBehind .LABEL before) t.text
  rw [← h.labels, ← Draft.labels_settle d t.kind] at hlookup
  cases hfinish : ((d.settle t.kind).write t).finish t next with
  | error fault =>
    obtain ⟨hplace, first, hfirst, rfl⟩ := Draft.finish_eq_error hfinish
    rw [hfirst] at hlookup
    obtain ⟨label, hlabel, rfl⟩ := Option.map_eq_some_iff.mp hlookup.symm
    rw [labelFault?, if_pos (hname.mpr hplace), hlabel]
    rfl
  | ok e =>
    by_cases hplace : d.control.place.settle t.kind = .labelName
    · have hnew := (Draft.finished_of_finish hfinish).not_mem_labels hplace
      rw [← Names.isNone_lookup_iff, Option.isNone_iff_eq_none] at hnew
      rw [hnew] at hlookup
      rw [labelFault?, if_pos (hname.mpr hplace), Option.map_eq_none_iff.mp hlookup.symm]
      rfl
    · rw [labelFault?, if_neg fun hlabel => hplace (hname.mp hlabel)]

/-- What comes of checking a token: a fault of the grammar or of a variable, the end of a
complete program, or neither. -/
theorem check_cases (h : d.Tracks before) (t : Token) :
    (∃ cause, (grammarFault? before t).or (variableFault? before t) = some (cause, t.location) ∧
      (d.settle t.kind).check t = .refused cause) ∨
    ((grammarFault? before t).or (variableFault? before t) = none ∧ t.kind = .endOfInput ∧
      (d.settle t.kind).check t = .complete) ∨
    ((grammarFault? before t).or (variableFault? before t) = none ∧ t.kind ≠ .endOfInput ∧
      ∃ next, d.control.react t.kind = .proceed next ∧
        (d.settle t.kind).check t = .passed next) := by
  have hgrammar := h.grammarFault?_eq t
  have hsettled : (d.settle t.kind).control.reactSettled t.kind = d.control.react t.kind := rfl
  cases hreact : d.control.react t.kind with
  | complete =>
    rw [hreact] at hgrammar hsettled
    have hk := (Control.reactSettled_eq_complete_iff.mp hreact).2.1
    refine .inr (.inl ⟨?_, hk, by rw [Draft.check, hsettled]⟩)
    have hnot : isUse before t = false := by
      rw [isUse, hk]
      rfl
    rw [hgrammar, Option.none_or, variableFault?, hnot, if_neg fun hfault => ?_]
    cases hfault.1
  | reject e =>
    rw [hreact] at hgrammar hsettled
    exact .inl ⟨_, by rw [hgrammar, Option.some_or], by rw [Draft.check, hsettled]⟩
  | proceed next =>
    rw [hreact] at hgrammar hsettled
    have hvariable := h.variableFault?_eq hreact
    cases huse : (d.settle t.kind).useFault? t with
    | some fault =>
      rw [huse] at hvariable
      refine .inl ⟨.naming fault, ?_, ?_⟩
      · rw [hgrammar, hvariable, Option.none_or]
        rfl
      · simp only [Draft.check, hsettled, huse]
    | none =>
      rw [huse] at hvariable
      refine .inr (.inr ⟨?_, fun hk => ?_, next, rfl, ?_⟩)
      · rw [hgrammar, hvariable]
        rfl
      · rw [hk] at hreact
        exact Control.react_endOfInput_ne_proceed _ _ hreact
      · simp only [Draft.check, hsettled, huse]

end Draft.Tracks

/-! ## Giving up -/

/-- The fault at which a list of tokens is given up, if it is given up before the end of the
input is reached: the first check that fails, or the lexical fault on the way to the next
token. -/
def stop (failure : Option Diagnostic) (report : Cause → Location → Diagnostic)
    (before : List Token) : List Token → Option Diagnostic
  | [] => none
  | t :: behind =>
    match (grammarFault? before t).or (variableFault? before t) with
    | some fault => some (report fault.1 fault.2)
    | none =>
      if t.kind = .endOfInput then none
      else
        match fetchFault failure behind with
        | some fault => some fault
        | none =>
          match labelFault? before t with
          | some fault => some (report fault.1 fault.2)
          | none => stop failure report (before ++ [t]) behind

variable {failure : Option Diagnostic} {report : Cause → Location → Diagnostic}
  {before rest : List Token} {d : Draft}

/-- A draft deals with one token as the list of tokens does: both give up with the same fault,
or the program is complete, or both go on. -/
theorem Draft.Tracks.translate_cons (failure : Option Diagnostic)
    (report : Cause → Location → Diagnostic) (h : d.Tracks before) (t : Token)
    (behind : List Token) :
    (∃ fault, stop failure report before (t :: behind) = some fault ∧
      Draft.translate failure report (t :: behind) d = .error fault) ∨
    (t.kind = .endOfInput ∧ stop failure report before (t :: behind) = none ∧
      Draft.translate failure report (t :: behind) d =
        Draft.concludeAt report (d.settle t.kind)) ∨
    (t.kind ≠ .endOfInput ∧ ∃ e : Draft, e.Tracks (before ++ [t]) ∧
      stop failure report before (t :: behind) = stop failure report (before ++ [t]) behind ∧
      Draft.translate failure report (t :: behind) d =
        Draft.translate failure report behind e) := by
  rw [stop, Draft.translate]
  rcases h.check_cases t with
    ⟨cause, hfault, hcheck⟩ | ⟨hnone, hk, hcheck⟩ | ⟨hnone, hk, next, hreact, hcheck⟩
  · rw [hfault, hcheck]
    exact .inl ⟨_, rfl, rfl⟩
  · rw [hnone, hcheck]
    exact .inr (.inl ⟨hk, if_pos hk, rfl⟩)
  · rw [hnone, hcheck]
    dsimp only
    rw [if_neg hk]
    cases hfetch : fetchFault failure behind with
    | some lexical => exact .inl ⟨lexical, rfl, rfl⟩
    | none =>
      have hlabel := h.labelFault?_eq hreact
      cases hfinish : ((d.settle t.kind).write t).finish t next with
      | error name =>
        rw [hfinish] at hlabel
        rw [hlabel]
        exact .inl ⟨_, rfl, rfl⟩
      | ok e =>
        rw [hfinish] at hlabel
        rw [hlabel]
        exact .inr (.inr ⟨hk, e, h.finish hreact hfinish, rfl, rfl⟩)

/-- A draft stops where the list of tokens is given up. -/
theorem Draft.Tracks.translate_eq_error (h : d.Tracks before) {fault : Diagnostic}
    (hstop : stop failure report before rest = some fault) :
    Draft.translate failure report rest d = .error fault := by
  induction rest generalizing before d with
  | nil => cases hstop
  | cons t behind ih =>
    rcases h.translate_cons failure report t behind with
      ⟨fault', hfault, htranslate⟩ | ⟨-, hnone, -⟩ | ⟨-, e, hknows, hstop', htranslate⟩
    · rw [hfault] at hstop
      rw [htranslate, Option.some.inj hstop]
    · rw [hnone] at hstop
      cases hstop
    · rw [hstop'] at hstop
      rw [htranslate, ih hknows hstop]

/-- A draft that does not stop comes to the end of the input, and knows all tokens before it. -/
theorem Draft.Tracks.translate_eq_concludeAt (h : d.Tracks before) {front : List Token}
    {last : Token} (hfront : ∀ t ∈ front, t.kind ≠ .endOfInput) (hlast : last.kind = .endOfInput)
    (hstop : stop failure report before (front ++ [last]) = none) :
    ∃ e : Draft, e.Tracks (before ++ front) ∧
      Draft.translate failure report (front ++ [last]) d =
        Draft.concludeAt report (e.settle last.kind) := by
  induction front generalizing before d with
  | nil =>
    rcases h.translate_cons failure report last [] with
      ⟨fault, hfault, -⟩ | ⟨-, -, htranslate⟩ | ⟨hk, -⟩
    · rw [List.nil_append, hfault] at hstop
      cases hstop
    · exact ⟨d, by rwa [List.append_nil], htranslate⟩
    · exact absurd hlast hk
  | cons t front ih =>
    rw [List.cons_append] at hstop ⊢
    rcases h.translate_cons failure report t (front ++ [last]) with
      ⟨fault, hfault, -⟩ | ⟨hk, -⟩ | ⟨-, e, hknows, hstop', htranslate⟩
    · rw [hfault] at hstop
      cases hstop
    · exact absurd hk (hfront t List.mem_cons_self)
    · rw [hstop'] at hstop
      obtain ⟨final, hfinal, hconclude⟩ := ih hknows
        (fun t ht => hfront t (List.mem_cons_of_mem _ ht)) hstop
      rw [List.append_assoc, List.singleton_append] at hfinal
      exact ⟨final, hfinal, htranslate.trans hconclude⟩

/-! ## The first fault of a list -/

/-- All checks before those of a token have passed. -/
structure Passed (ts : List Token) (i : Nat) : Prop where
  earlier : firstFault ts i = none
  label : labelCheckAt ts i = none

theorem faultAt_of_passed {ts behind : List Token} {t : Token} (hts : ts = before ++ t :: behind)
    (h : Passed ts before.length) :
    faultAt ts before.length = (grammarFault? before t).or (variableFault? before t) := by
  rw [faultAt, h.label, Option.none_or, hts, checkAt_append, checkAt_append]

/-- When the checks of a token have passed too, the check of its label is the next one. -/
theorem Passed.firstFault_succ {ts behind : List Token} {t : Token}
    (hts : ts = before ++ t :: behind) (h : Passed ts before.length)
    (hnone : (grammarFault? before t).or (variableFault? before t) = none) :
    firstFault ts (before.length + 1) = none ∧
      labelCheckAt ts (before.length + 1) = labelFault? before t := by
  constructor
  · rw [PocketBasic.firstFault_succ, h.earlier, faultAt_of_passed hts h, hnone, Option.none_or]
  · rw [labelCheckAt, hts, checkAt_append]

/-- The next fault of a list, as long as the checks that are made with its first `n` tokens in
hand are looked at: that of the present token, that of its label, or one behind it. -/
theorem Passed.firstFault_cases {ts behind : List Token} {t : Token} {n : Nat}
    (hts : ts = before ++ t :: behind) (h : Passed ts before.length) (hn : before.length < n) :
    (∃ fault, (grammarFault? before t).or (variableFault? before t) = some fault ∧
      firstFault ts n = some fault) ∨
    ((grammarFault? before t).or (variableFault? before t) = none ∧
      ((n = before.length + 1 ∧ firstFault ts n = none) ∨
      (before.length + 1 < n ∧ ∃ fault, labelFault? before t = some fault ∧
        firstFault ts n = some fault) ∨
      (before.length + 1 < n ∧ labelFault? before t = none ∧
        Passed ts (before ++ [t]).length))) := by
  have hfault := faultAt_of_passed hts h
  cases hchecks : (grammarFault? before t).or (variableFault? before t) with
  | some fault =>
    rw [hchecks] at hfault
    exact .inl ⟨fault, rfl, firstFault_eq_some h.earlier hfault hn⟩
  | none =>
    obtain ⟨hearlier, hlabel⟩ := h.firstFault_succ hts hchecks
    refine .inr ⟨rfl, ?_⟩
    rcases Nat.eq_or_lt_of_le (Nat.succ_le_of_lt hn) with rfl | hlt
    · exact .inl ⟨rfl, hearlier⟩
    refine .inr ?_
    cases hduplicate : labelFault? before t with
    | some fault =>
      rw [hduplicate] at hlabel
      have hnext : faultAt ts (before.length + 1) = some fault := by
        rw [faultAt, hlabel, Option.some_or]
      exact .inl ⟨hlt, fault, rfl, firstFault_eq_some hearlier hnext hlt⟩
    | none =>
      rw [hduplicate] at hlabel
      refine .inr ⟨hlt, rfl, ?_⟩
      rw [List.length_append, List.length_singleton]
      exact ⟨hearlier, hlabel⟩

/-- A list that no lexical fault ends is given up with its first fault. -/
theorem stop_none_eq {ts front : List Token} {last : Token}
    (hts : ts = before ++ (front ++ [last])) (hfront : ∀ t ∈ front, t.kind ≠ .endOfInput)
    (hlast : last.kind = .endOfInput) (h : Passed ts before.length) :
    stop none report before (front ++ [last]) =
      (firstFault ts ts.length).map fun fault => report fault.1 fault.2 := by
  induction front generalizing before with
  | nil =>
    have hlength : ts.length = before.length + 1 := by simp [hts]
    rcases h.firstFault_cases hts (n := ts.length) (by omega) with
      ⟨fault, hfault, hfirst⟩ | ⟨hnone, ⟨-, hfirst⟩ | ⟨hlt, -⟩ | ⟨hlt, -⟩⟩
    · rw [List.nil_append, stop, hfault, hfirst]
      rfl
    · rw [List.nil_append, stop, hnone, hfirst]
      exact if_pos hlast
    · omega
    · omega
  | cons t front ih =>
    have hlength : ts.length = before.length + (front.length + 1) + 1 := by simp [hts]; omega
    have hk := hfront t List.mem_cons_self
    have hfetch : fetchFault none (front ++ [last]) = none := by
      rw [fetchFault, ite_self]
    rw [List.cons_append] at hts ⊢
    rcases h.firstFault_cases hts (n := ts.length) (by omega) with
      ⟨fault, hfault, hfirst⟩ |
        ⟨hnone, ⟨hn, -⟩ | ⟨-, fault, hfault, hfirst⟩ | ⟨-, hlabel, hpassed⟩⟩
    · rw [stop, hfault, hfirst]
      rfl
    · omega
    · rw [stop, hnone, hfetch, hfault, hfirst]
      exact if_neg hk
    · rw [stop, hnone, hfetch, hlabel]
      dsimp only
      rw [if_neg hk]
      refine ih ?_ (fun t ht => hfront t (List.mem_cons_of_mem _ ht)) hpassed
      rw [hts, List.append_assoc, List.singleton_append]

/-- A list that a lexical fault ends is given up with its first fault, or else with that one.
Its last token is never checked. -/
theorem stop_some_eq {fault : Diagnostic} {ts : List Token} (hts : ts = before ++ rest)
    (hrest : ∀ t ∈ rest, t.kind ≠ .endOfInput) (hlength : 2 ≤ rest.length)
    (h : Passed ts before.length) :
    stop (some fault) report before rest =
      some (((firstFault ts (ts.length - 1)).map fun fault => report fault.1 fault.2).getD
        fault) := by
  induction rest generalizing before with
  | nil => exact absurd hlength (Nat.not_succ_le_zero 1)
  | cons t behind ih =>
    have hn : ts.length - 1 = before.length + behind.length := by simp [hts]
    have hk := hrest t List.mem_cons_self
    rw [List.length_cons] at hlength
    rcases h.firstFault_cases hts (n := ts.length - 1) (by omega) with
      ⟨cause, hcause, hfirst⟩ |
        ⟨hnone, ⟨hone, hfirst⟩ | ⟨hlt, cause, hcause, hfirst⟩ | ⟨hlt, hlabel, hpassed⟩⟩
    · rw [stop, hcause, hfirst]
      rfl
    · have hfetch : fetchFault (some fault) behind = some fault := if_pos (by omega)
      rw [stop, hnone, hfetch, hfirst]
      exact if_neg hk
    · have hfetch : fetchFault (some fault) behind = none := if_neg (by omega)
      rw [stop, hnone, hfetch, hcause, hfirst]
      exact if_neg hk
    · have hfetch : fetchFault (some fault) behind = none := if_neg (by omega)
      rw [stop, hnone, hfetch, hlabel]
      dsimp only
      rw [if_neg hk]
      refine ih ?_ (fun t ht => hrest t (List.mem_cons_of_mem _ ht)) (by omega) hpassed
      rw [hts, List.append_assoc, List.singleton_append]

/-! ## Jumps -/

/-- The end of the input is no name. -/
theorem namesBehind_endOfInput (k : Keyword) (front : List Token) {last : Token}
    (hlast : last.kind = .endOfInput) : namesBehind k (front ++ [last]) = namesBehind k front := by
  rw [namesBehind_concat, hlast, if_neg fun h => Kind.noConfusion h.2, List.append_nil]

/-- The jump that a draft finds at the end of the input is the first one that leads nowhere. -/
theorem Draft.Tracks.danglingJump?_eq {front : List Token} (h : d.Tracks front) {last : Token}
    (hlast : last.kind = .endOfInput) :
    (d.settle last.kind).names.danglingJump? =
      (danglingJump? (front ++ [last])).map fun t => (t.text, t.location) := by
  have hlabels : d.names.labels.map Prod.fst = (namesBehind .LABEL front).map Token.text := by
    rw [h.labels, List.map_map]
    rfl
  rw [Names.danglingJump?, labels_settle, jumps_settle,
    h.jumps fun name => (d.names.labels.lookup name).isNone, List.find?_map,
    PocketBasic.danglingJump?, namesBehind_endOfInput _ _ hlast, namesBehind_endOfInput _ _ hlast]
  congr 2
  funext t
  rw [Bool.eq_iff_iff, decide_eq_true_eq, ← hlabels, ← Names.isNone_lookup_iff]
  rfl

/-! ## Sources -/

namespace Source

/-- The fault for which a source is rejected, if it is. -/
def firstFault? (s : Source) : Option Diagnostic :=
  let ts := s.tokenize.tokens
  match s.tokenize.failure with
  | none =>
    ((firstFault ts ts.length).or ((danglingJump? ts).map fun t =>
      (.naming (.undeclaredLabel t.text), t.location))).map fun fault => s.report fault.1 fault.2
  | some lexical =>
    some (((firstFault ts (ts.length - 1)).map fun fault => s.report fault.1 fault.2).getD lexical)

variable {s : Source}

theorem passed_zero (ts : List Token) : Passed ts ([] : List Token).length := ⟨rfl, rfl⟩

/-- A source without a lexical fault is rejected for its first fault. -/
theorem draft_of_clean (hclean : s.tokenize.failure = none) :
    (s.firstFault? = none ∧ ∃ d, s.draft = .ok d) ∨
      ∃ fault, s.firstFault? = some fault ∧ s.draft = .error fault := by
  obtain ⟨front, last, htokens, hlast, hfront, -⟩ := answer_of_clean hclean
  have hstop : stop none s.report [] (front ++ [last]) = _ :=
    stop_none_eq (List.nil_append _).symm hfront hlast (passed_zero _)
  rw [firstFault?, hclean, draft_eq_translate hclean, htokens]
  dsimp only
  cases hfirst : firstFault (front ++ [last]) (front ++ [last]).length with
  | some fault =>
    rw [hfirst] at hstop
    exact .inr ⟨_, rfl, Draft.tracks_start.translate_eq_error hstop⟩
  | none =>
    rw [hfirst] at hstop
    obtain ⟨e, htracks, htranslate⟩ :=
      Draft.tracks_start.translate_eq_concludeAt hfront hlast hstop
    rw [List.nil_append] at htracks
    rw [htranslate, Draft.concludeAt, Draft.conclude, htracks.danglingJump?_eq hlast, Option.none_or]
    cases danglingJump? (front ++ [last]) with
    | none => exact .inl ⟨rfl, _, rfl⟩
    | some t => exact .inr ⟨_, rfl, rfl⟩

/-- A source with a lexical fault is rejected for its first fault. -/
theorem draft_of_failure {lexical : Diagnostic} (hfailure : s.tokenize.failure = some lexical) :
    ∃ fault, s.firstFault? = some fault ∧ s.draft = .error fault := by
  refine ⟨_, by rw [firstFault?, hfailure], ?_⟩
  rw [draft, hfailure]
  by_cases hfew : s.tokenize.tokens.length < 2
  · have hzero : s.tokenize.tokens.length - 1 = 0 := by omega
    rw [fetchFault, if_pos hfew, hzero]
    rfl
  · rw [fetchFault, if_neg hfew]
    refine Draft.tracks_start.translate_eq_error ?_
    exact stop_some_eq (List.nil_append _).symm (answer_of_failure hfailure).2
      (Nat.le_of_not_lt hfew) (passed_zero _)

/-- A source is translated, or it is rejected for its first fault. -/
theorem draft_of_firstFault? (s : Source) :
    (s.firstFault? = none ∧ ∃ d, s.draft = .ok d) ∨
      ∃ fault, s.firstFault? = some fault ∧ s.draft = .error fault := by
  cases hfailure : s.tokenize.failure with
  | none => exact draft_of_clean hfailure
  | some lexical => exact .inr (draft_of_failure hfailure)

/-- In front of a lexical fault no jump is at fault. -/
theorem firstFault?_ne_undeclaredLabel {lexical fault : Diagnostic}
    (hfailure : s.tokenize.failure = some lexical) (h : s.firstFault? = some fault)
    (name : String) : fault.cause ≠ .naming (.undeclaredLabel name) := by
  rw [firstFault?, hfailure] at h
  obtain rfl := Option.some.inj h
  cases hfirst : firstFault s.tokenize.tokens (s.tokenize.tokens.length - 1) with
  | some fault => exact firstFault_ne_undeclaredLabel hfirst name
  | none =>
    obtain ⟨cause, hcause⟩ := cause_of_failure hfailure
    rw [Option.map_none, Option.getD_none, hcause]
    exact Cause.noConfusion

end Source

/-- A text is rejected for its first fault.  If its tokens end with a lexical fault, it is
rejected in any case, and never for a jump. -/
theorem compile_first_fault (filename text : String) :
    (∀ fault, compile filename text = .error fault ↔
      (Source.ofString filename text).firstFault? = some fault) ∧
    ∀ lexical, (Source.ofString filename text).tokenize.failure = some lexical →
      ∃ fault, compile filename text = .error fault ∧
        ∀ name, fault.cause ≠ .naming (.undeclaredLabel name) := by
  rw [compile_eq]
  generalize Source.ofString filename text = s
  constructor
  · intro fault
    rcases s.draft_of_firstFault? with ⟨hfirst, d, hd⟩ | ⟨first, hfirst, hdraft⟩
    · rw [hfirst, hd]
      constructor
      · intro herror
        cases herror
      · intro hsome
        cases hsome
    · rw [hfirst, hdraft]
      constructor
      · intro herror
        exact congrArg some (Except.error.inj herror)
      · intro hsome
        rw [Option.some.inj hsome]
        rfl
  · intro lexical hfailure
    obtain ⟨fault, hfirst, hdraft⟩ := Source.draft_of_failure hfailure
    refine ⟨fault, ?_, Source.firstFault?_ne_undeclaredLabel hfailure hfirst⟩
    rw [hdraft]
    rfl

/-- A second declaration of a label is at fault, but a lexical fault right behind its line hides
it. -/
theorem compile_first_fault_behind_label :
    compile "labels.tt" "LABEL a\nLABEL a\n\n@" = .error ⟨.naming (.duplicateLabel "a"
      (some ⟨"labels.tt", 1, 7⟩)), some ⟨"labels.tt", 2, 7⟩, some "LABEL a"⟩ ∧
    ∃ fault, compile "labels.tt" "LABEL a\nLABEL a\n@" = .error fault ∧
      fault.cause = .lexical (.invalidCharacter '@') ∧
      ∀ name, fault.cause ≠ .naming (.undeclaredLabel name) := by
  refine ⟨((compile_first_fault _ _).1 _).mpr (by cbv), ?_⟩
  obtain ⟨fault, hfault, hcause⟩ := (compile_first_fault "labels.tt" "LABEL a\nLABEL a\n@").2
    ⟨.lexical (.invalidCharacter '@'), some ⟨"labels.tt", 3, 1⟩, some "@"⟩ (by cbv)
  refine ⟨fault, hfault, ?_, hcause⟩
  have hfirst := ((compile_first_fault _ _).1 _).mp hfault
  have hlexical : (Source.ofString "labels.tt" "LABEL a\nLABEL a\n@").firstFault? =
      some ⟨.lexical (.invalidCharacter '@'), some ⟨"labels.tt", 3, 1⟩, some "@"⟩ := by cbv
  rw [hlexical] at hfirst
  rw [← Option.some.inj hfirst]

end PocketBasic

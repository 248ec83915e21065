import PocketBasic.Proofs.Grammar.Recognition
import PocketBasic.Proofs.TokenList
import PocketBasic.Proofs.Translation.Declarations
import PocketBasic.Proofs.Translation.Programs

/-!
# Translating a source without lexical faults

If no lexical fault ends the list of tokens, translating it is reading it and then looking
at the jumps (`Draft.translate_eq_readAll`).  The control accepts a list that is
read to its end (`Draft.accepts_of_readAll`), and reading the list of a tree is heeding the
mentions of the tree and writing its lines (`reads_source`).  Together they say what a
translation comes to in terms of trees only:

* a source that is translated has a tree (`Source.nonempty_tree`);
* if it has one, the names alone decide what comes of it (`Source.draft_of_tree`).
-/

namespace PocketBasic

namespace Draft

variable {d e : Draft} {t : Token} {next : Control}

/-! ## The control of a draft -/

theorem control_declareVariable (name : String) :
    (d.declareVariable name).control = d.control := by
  unfold declareVariable
  split <;> rfl

theorem control_declareLabel {name : String} {place : Location}
    (h : d.declareLabel name place = .ok e) : e.control = d.control := by
  unfold declareLabel at h
  split at h
  · cases h
  · obtain rfl := Except.ok.inj h
    rfl

/-- Behind a token, a draft stands where the control goes on. -/
theorem control_finish (h : d.finish t next = .ok e) : e.control = next := by
  unfold finish at h
  dsimp only at h
  split at h
  case h_1 => split at h <;> obtain rfl := Except.ok.inj h <;> rfl
  case h_2 =>
    split at h
    · cases h
    · rename_i hlabel
      obtain rfl := Except.ok.inj h
      exact control_declareLabel hlabel
  case h_6 =>
    obtain rfl := Except.ok.inj h
    exact control_declareVariable _
  all_goals
    obtain rfl := Except.ok.inj h
    rfl

theorem react_of_check_complete (h : (d.settle t.kind).check t = .complete) :
    d.control.react t.kind = .complete := by
  unfold check at h
  split at h
  · assumption
  · cases h
  · split at h <;> cases h

theorem react_of_check_passed (h : (d.settle t.kind).check t = .passed next) :
    d.control.react t.kind = .proceed next := by
  unfold check at h
  split at h
  · cases h
  · cases h
  · split at h
    · cases h
    · obtain rfl := Opinion.passed.inj h
      assumption

/-- A token that is read completes the program or leads on. -/
theorem react_of_read (h : d.read t = .ok e) :
    d.control.react t.kind = .complete ∨ d.control.react t.kind = .proceed e.control := by
  unfold read at h
  dsimp only at h
  split at h
  · rename_i hcheck
    exact .inl (react_of_check_complete hcheck)
  · cases h
  · rename_i next hcheck
    cases hfinish : (((d.settle t.kind).write t).finish t next) with
    | error fault =>
      rw [hfinish] at h
      cases h
    | ok finished =>
      rw [hfinish] at h
      obtain rfl := Except.ok.inj h
      rw [control_finish hfinish]
      exact .inr (react_of_check_passed hcheck)

/-- The control accepts what is read up to the end of the input. -/
theorem accepts_of_readAll {front : List Token} (hfront : ∀ t ∈ front, t.kind ≠ .endOfInput)
    {last : Token} (hlast : last.kind = .endOfInput)
    (h : d.readAll (front ++ [last]) = .ok e) : d.control.Accepts front := by
  induction front generalizing d with
  | nil =>
    obtain ⟨d', hread, -⟩ := exists_of_readAll_cons h
    have hreact := react_of_read hread
    rw [hlast] at hreact
    exact hreact.resolve_right (Control.react_endOfInput_ne_proceed _ _)
  | cons t front ih =>
    obtain ⟨d', hread, hbehind⟩ := exists_of_readAll_cons h
    have hk := hfront t List.mem_cons_self
    have hproceed := (react_of_read hread).resolve_left fun hcomplete =>
      hk (Control.reactSettled_eq_complete_iff.mp hcomplete).2.1
    exact ⟨d'.control, hproceed, ih (fun t ht => hfront t (List.mem_cons_of_mem _ ht)) hbehind⟩

/-! ## Lists without a lexical fault -/

/-- What a draft comes to that has been read to the end of the input. -/
def concludeAt (report : Cause → Location → Diagnostic) (d : Draft) : Except Diagnostic Draft :=
  d.conclude.mapError fun jump => report (.naming (.undeclaredLabel jump.1)) jump.2

/-- To translate a list that no lexical fault ends is to read it and to look at the jumps. -/
theorem translate_eq_readAll (report : Cause → Location → Diagnostic) {front : List Token}
    (hfront : ∀ t ∈ front, t.kind ≠ .endOfInput) {last : Token}
    (hlast : last.kind = .endOfInput) (d : Draft) :
    translate none report (front ++ [last]) d =
      ((d.readAll (front ++ [last])).mapError fun fault => report fault.1 fault.2).bind
        (concludeAt report) := by
  induction front generalizing d with
  | nil =>
    rw [List.nil_append, translate, readAll, read]
    cases hcheck : (d.settle last.kind).check last with
    | complete => rfl
    | refused cause => rfl
    | passed next =>
      have hreact := react_of_check_passed hcheck
      rw [hlast] at hreact
      exact absurd hreact (Control.react_endOfInput_ne_proceed _ _)
  | cons t front ih =>
    rw [List.cons_append, translate, readAll, read]
    cases hcheck : (d.settle t.kind).check t with
    | complete => exact absurd (kind_of_check_complete hcheck) (hfront t List.mem_cons_self)
    | refused cause => rfl
    | passed next =>
      have hfetch : fetchFault none (front ++ [last]) = none := by
        rw [fetchFault, ite_self]
      rw [hfetch]
      dsimp only
      cases ((d.settle t.kind).write t).finish t next with
      | error fault => rfl
      | ok finished => exact ih (fun t ht => hfront t (List.mem_cons_of_mem _ ht)) finished

/-- A list that a lexical fault ends is not translated. -/
theorem translate_eq_error (report : Cause → Location → Diagnostic) (fault : Diagnostic)
    {ts : List Token} (hts : ∀ t ∈ ts, t.kind ≠ .endOfInput) (hne : ts ≠ []) (d : Draft) :
    ∃ fault', translate (some fault) report ts d = .error fault' := by
  induction ts generalizing d with
  | nil => exact absurd rfl hne
  | cons t ts ih =>
    rw [translate]
    cases hcheck : (d.settle t.kind).check t with
    | complete => exact absurd (kind_of_check_complete hcheck) (hts t List.mem_cons_self)
    | refused cause => exact ⟨_, rfl⟩
    | passed next =>
      by_cases hfew : ts.length < 2
      · refine ⟨fault, ?_⟩
        rw [fetchFault, if_pos hfew]
      · rw [fetchFault, if_neg hfew]
        dsimp only
        cases ((d.settle t.kind).write t).finish t next with
        | error fault' => exact ⟨_, rfl⟩
        | ok finished =>
          refine ih (fun t ht => hts t (List.mem_cons_of_mem _ ht)) (fun hnil => hfew ?_) finished
          rw [hnil]
          exact Nat.two_pos

end Draft

/-! ## Sources and trees -/

namespace Source

variable {s : Source}

/-- A tree of a source: a program with line ends before it and the end of the input behind it,
which spells all tokens of the source. -/
structure Tree (s : Source) where
  blanks : List (Terminal .newline)
  program : Program
  last : Terminal .endOfInput
  tokens_eq : s.tokenize.tokens = leafTokens blanks ++ (program.tokens ++ [last.1])

theorem draft_eq_error {fault : Diagnostic} (h : s.tokenize.failure = some fault) :
    ∃ fault', s.draft = .error fault' := by
  rw [draft, h]
  by_cases hfew : s.tokenize.tokens.length < 2
  · refine ⟨fault, ?_⟩
    rw [fetchFault, if_pos hfew]
  · rw [fetchFault, if_neg hfew]
    refine Draft.translate_eq_error _ _ (answer_of_failure h).2 (fun hnil => hfew ?_) _
    rw [hnil]
    exact Nat.two_pos

theorem draft_eq_translate (h : s.tokenize.failure = none) :
    s.draft = Draft.translate none s.report s.tokenize.tokens (.start .empty .empty) := by
  rw [draft, h, fetchFault, ite_self]

/-- To translate a source without a lexical fault is to read its tokens and to look at the
jumps. -/
theorem draft_eq_readAll (hclean : s.tokenize.failure = none) :
    s.draft = (((Draft.start .empty .empty).readAll s.tokenize.tokens).mapError
      fun fault => s.report fault.1 fault.2).bind (Draft.concludeAt s.report) := by
  obtain ⟨front, last, htokens, hlast, hfront, -⟩ := answer_of_clean hclean
  rw [draft_eq_translate hclean, htokens, Draft.translate_eq_readAll _ hfront hlast]

/-- A source that is translated has a tree. -/
theorem nonempty_tree {d : Draft} (hclean : s.tokenize.failure = none) (h : s.draft = .ok d) :
    Nonempty s.Tree := by
  obtain ⟨front, last, htokens, hlast, hfront, -⟩ := answer_of_clean hclean
  rw [draft_eq_readAll hclean, htokens] at h
  cases hread : (Draft.start .empty .empty).readAll (front ++ [last]) with
  | error fault =>
    rw [hread] at h
    cases h
  | ok e =>
    obtain ⟨blanks, p, rfl⟩ :=
      Control.exists_tree_of_accepts (Draft.accepts_of_readAll hfront hlast hread)
    exact ⟨⟨blanks, p, ⟨last, hlast⟩, by rw [htokens, List.append_assoc]⟩⟩

/-- If the tokens of a source are read in a way that is known, the mentions of names in it
decide what the source is translated to. -/
theorem draft_of_reads (hclean : s.tokenize.failure = none) {ms : List Mention} {text : String}
    {s' : Stance} (h : Reads ⟨.start, ""⟩ s.tokenize.tokens ms text s') :
    s.draft = (((Draft.start .empty .empty).heedAll ms).mapError
      fun fault => s.report fault.1 fault.2).bind fun d =>
        Draft.concludeAt s.report (d.move text s') := by
  rw [draft_eq_readAll hclean, h _ rfl]
  cases (Draft.start .empty .empty).heedAll ms <;> rfl

/-- What a source with a tree is translated to is decided by the mentions of the tree. -/
theorem draft_of_tree (hclean : s.tokenize.failure = none) (tree : s.Tree) :
    s.draft = (((Draft.start .empty .empty).heedAll tree.program.mentions).mapError
      fun fault => s.report fault.1 fault.2).bind fun d =>
        Draft.concludeAt s.report (d.move (unlines tree.program.lines) ⟨⟨.statement, []⟩, ""⟩) := by
  have hread := reads_source tree.blanks tree.program tree.last
  rw [← tree.tokens_eq] at hread
  exact draft_of_reads hclean hread

end Source
end PocketBasic

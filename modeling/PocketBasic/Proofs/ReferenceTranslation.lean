import Mathlib
import PocketBasic.Proofs.Acceptance

/-!
# What an accepted source is translated to

A translation writes its text piece by piece while it reads, and declares variables in
another place as it meets them.  What comes of it is the translation of the tree, which is
done in two passes and keeps nothing in mind (`Program.listing`).

Main statement: `compile_eq_listing`, which says all of the result in terms of the tree.
-/

namespace PocketBasic

/-! ## The order of the variables -/

theorem nodup_eraseDups (xs : List String) : xs.eraseDups.Nodup := by
  induction hn : xs.length using Nat.strongRecOn generalizing xs with
  | ind n ih =>
    cases xs with
    | nil => exact List.nodup_nil
    | cons x xs =>
      rw [List.eraseDups_cons, List.nodup_cons]
      have hlt : (xs.filter fun y => !y == x).length < n := by
        have hle := List.length_filter_le (fun y => !y == x) xs
        rw [List.length_cons] at hn
        omega
      refine ⟨fun hmem => ?_, ih _ hlt _ rfl⟩
      rw [List.mem_eraseDups, List.mem_filter] at hmem
      simp at hmem

/-- Names that are declared once each are reported in strictly increasing order. -/
theorem pairwise_lt_sortedVariables {n : Names} (h : n.variableNames.Nodup) :
    n.sortedVariables.Pairwise (· < ·) := by
  have hle : n.sortedVariables.Pairwise fun a b => decide (a ≤ b) = true := by
    refine List.pairwise_mergeSort (fun a b c hab hbc => ?_) (fun a b => ?_) _
    · exact decide_eq_true (String.le_trans (of_decide_eq_true hab) (of_decide_eq_true hbc))
    · rw [Bool.or_eq_true]
      exact (String.le_total a b).imp decide_eq_true decide_eq_true
  have hne : n.sortedVariables.Nodup := (List.mergeSort_perm _ _).nodup_iff.mpr h
  refine (hle.and hne).imp ?_
  intro a b hab
  by_contra hnot
  exact hab.2 (String.le_antisymm (of_decide_eq_true hab.1) hnot)

/-! ## The result of a source -/

namespace Source

variable {s : Source}

theorem clean_of_draft {d : Draft} (h : s.draft = .ok d) : s.tokenize.failure = none := by
  cases hfailure : s.tokenize.failure with
  | none => rfl
  | some fault =>
    obtain ⟨fault', hfault⟩ := draft_eq_error hfailure
    rw [h] at hfault
    cases hfault

/-- The draft of a source with a tree is the one that has heeded the mentions of the tree,
with the lines of the tree and the closing lines in its body. -/
theorem exists_heedAll_of_draft {d : Draft} (h : s.draft = .ok d) (tree : s.Tree) :
    ∃ e, (Draft.start .empty .empty).heedAll tree.program.mentions = .ok e ∧
      d = ((e.move (unlines tree.program.lines) ⟨⟨.statement, []⟩, ""⟩).emitLine
        "return 0;").emitLine "\x7d" := by
  rw [draft_of_tree (clean_of_draft h) tree] at h
  cases he : (Draft.start .empty .empty).heedAll tree.program.mentions with
  | error fault =>
    rw [he] at h
    cases h
  | ok e =>
    rw [he] at h
    refine ⟨e, rfl, ?_⟩
    change Draft.concludeAt _ _ = _ at h
    rw [Draft.concludeAt, Draft.conclude] at h
    split at h
    · cases h
    · exact (Except.ok.inj h).symm

/-- What a source with a tree is translated to: the draft knows the mentions of the tree,
and its listing is the translation of the tree. -/
theorem knows_of_draft {d : Draft} (h : s.draft = .ok d) (tree : s.Tree) :
    d.Knows tree.program.mentions ∧ d.listing.render = unlines tree.program.listing := by
  obtain ⟨e, he, rfl⟩ := exists_heedAll_of_draft h tree
  rcases Draft.knows_start.heedAll tree.program.mentions with
    ⟨-, e', he', hknows⟩ | ⟨-, fault, hfault⟩
  · rw [he] at he'
    obtain rfl := Except.ok.inj he'
    rw [List.nil_append] at hknows
    refine ⟨⟨hknows.declared, hknows.labels, hknows.jumps, hknows.header⟩, ?_⟩
    have hbody : e.listing.body = "" := Draft.body_heedAll he
    have hepilogue : unlines epilogue = "return 0;" ++ "\n" ++ ("\x7d" ++ "\n") := rfl
    show e.listing.header ++ (((e.listing.body ++ unlines tree.program.lines) ++
      ("return 0;" ++ "\n")) ++ ("\x7d" ++ "\n")) = _
    rw [hbody, String.empty_append, hknows.header, hknows.declared, Program.listing,
      unlines_append _ epilogue, unlines_append _ tree.program.lines, hepilogue]
    simp only [String.append_assoc]
    rfl
  · rw [he] at hfault
    cases hfault

/-- The tokens before the end of the input are all but one. -/
theorem length_takeWhile_tokens (hclean : s.tokenize.failure = none) :
    (s.tokenize.tokens.takeWhile fun t => t.kind ≠ .endOfInput).length =
      s.tokenize.tokens.length - 1 := by
  obtain ⟨front, last, htokens, hlast, hfront, -⟩ := answer_of_clean hclean
  rw [htokens, List.takeWhile_append_of_pos (by simpa using hfront)]
  simp [hlast]

end Source

/-- A result comes from a draft. -/
theorem exists_draft_of_compile {filename text : String} {c : Compiled}
    (h : compile filename text = .ok c) :
    ∃ d, (Source.ofString filename text).draft = .ok d ∧
      c = (Source.ofString filename text).compiled d := by
  rw [compile_eq] at h
  cases hdraft : (Source.ofString filename text).draft with
  | error fault =>
    rw [hdraft] at h
    cases h
  | ok d =>
    rw [hdraft] at h
    exact ⟨d, rfl, (Except.ok.inj h).symm⟩

/-- The result of an accepted source is read off its tree.  The code is the translation of the
tree, the variables are those that are given a value in strictly increasing order, the labels
are those of the tree in their order, and the tokens are counted up to the end of the
input. -/
theorem compile_eq_listing {filename text : String} {c : Compiled}
    (h : compile filename text = .ok c) :
    Nonempty (Source.ofString filename text).Tree ∧
      ∀ tree : (Source.ofString filename text).Tree,
        c.code = unlines tree.program.listing ∧
        c.variableNames.Pairwise (· < ·) ∧
        (∀ name, name ∈ c.variableNames ↔ name ∈ tree.program.targets) ∧
        c.labels = tree.program.labels.map Prod.fst ∧
        c.tokenCount = ((Source.ofString filename text).tokenize.tokens.takeWhile
          fun t => t.kind ≠ .endOfInput).length := by
  obtain ⟨d, hdraft, rfl⟩ := exists_draft_of_compile h
  have hclean := Source.clean_of_draft hdraft
  refine ⟨Source.nonempty_tree hclean hdraft, ?_⟩
  intro tree
  obtain ⟨hknows, hlisting⟩ := Source.knows_of_draft hdraft tree
  refine ⟨hlisting, pairwise_lt_sortedVariables ?_, fun name => ?_, ?_,
    (Source.length_takeWhile_tokens hclean).symm⟩
  · rw [hknows.declared]
    exact nodup_eraseDups _
  · exact List.mem_mergeSort.trans hknows.mem_variableNames
  · exact congrArg _ hknows.labels

/-- A source with two variables, which are declared in the order of their assignments and
reported in the order of their names. -/
theorem compile_eq_listing_two_variables :
    ∃ c tree, compile "two.tt" "LET b = 1\nLET a = b\n" = .ok c ∧
      c.code = "#include <stdio.h>\nint main(void)\x7b\nfloat b;\nfloat a;\nb = 1;\na = b;\n" ++
        "return 0;\n\x7d\n" ∧
      c.code = unlines (Source.Tree.program (s := .ofString "two.tt" "LET b = 1\nLET a = b\n")
        tree).listing ∧
      c.variableNames = ["a", "b"] ∧ c.tokenCount = 11 := by
  have hc : compile "two.tt" "LET b = 1\nLET a = b\n" = .ok ⟨"two.tt",
      "#include <stdio.h>\nint main(void)\x7b\nfloat b;\nfloat a;\nb = 1;\na = b;\n" ++
        "return 0;\n\x7d\n", 11, ["a", "b"], [], none⟩ := by
    cbv
  obtain ⟨⟨tree⟩, htree⟩ := compile_eq_listing hc
  exact ⟨_, tree, hc, rfl, (htree tree).1, rfl, rfl⟩

end PocketBasic

import PocketBasic.Proofs.Translation.Sources

/-!
# Which sources are accepted

A source is compiled exactly if it has no lexical fault, its tokens have a tree, and the
names of the tree keep their rules (`compile_eq_ok_iff_accepted`).  No other source has a
result, and every other source has a fault.

The lexical part is settled with the list of tokens (`Source.draft_eq_error`), the
grammatical part with the trees (`Source.nonempty_tree`).  What is left are the names: the
mentions of a tree are heeded to their end exactly if they are allowed, and then the jumps
are looked at.
-/

namespace PocketBasic

/-- The rules of names that a program has to keep. -/
structure Program.NamesKept (p : Program) : Prop where
  usesAssigned : UsesAssigned p.mentions
  labelsDistinct : LabelsDistinct p.mentions
  jumpsLand : JumpsLand p.mentions

namespace Source

variable {s : Source}

/-- Whether the names of a tree keep their rules decides whether it is translated. -/
theorem draft_of_tree_cases (hclean : s.tokenize.failure = none) (tree : s.Tree) :
    (tree.program.NamesKept ∧ ∃ d, s.draft = .ok d) ∨
      (¬ tree.program.NamesKept ∧ ∃ fault, s.draft = .error fault) := by
  rw [draft_of_tree hclean tree]
  rcases Draft.knows_start.heedAll tree.program.mentions with
    ⟨hallowed, e, he, hknows⟩ | ⟨hnot, fault, hfault⟩
  · obtain ⟨huses, hlabels⟩ := (allAllowed_iff _).mp hallowed
    rw [List.nil_append] at hknows
    rw [he]
    show _ ∧ (∃ d, Draft.concludeAt _ _ = _) ∨ _ ∧ ∃ fault, Draft.concludeAt _ _ = _
    rw [Draft.concludeAt, Draft.conclude, Draft.names_move]
    cases hjump : e.names.danglingJump? with
    | none =>
      have hlands := hknows.danglingJump?_eq_none_iff.mp hjump
      exact .inl ⟨⟨huses, hlabels, hlands⟩, _, rfl⟩
    | some jump =>
      refine .inr ⟨fun hkept => ?_, _, rfl⟩
      rw [hknows.danglingJump?_eq_none_iff.mpr hkept.jumpsLand] at hjump
      cases hjump
  · rw [hfault]
    refine .inr ⟨fun hkept => hnot ?_, _, rfl⟩
    exact (allAllowed_iff _).mpr ⟨hkept.usesAssigned, hkept.labelsDistinct⟩

/-- A source that deserves a result: no lexical fault, a tree, and names that keep their
rules. -/
structure Accepted (s : Source) : Prop where
  clean : s.tokenize.failure = none
  exists_tree : ∃ tree : s.Tree, tree.program.NamesKept

theorem draft_cases (s : Source) :
    (s.Accepted ∧ ∃ d, s.draft = .ok d) ∨ (¬ s.Accepted ∧ ∃ fault, s.draft = .error fault) := by
  cases hfailure : s.tokenize.failure with
  | some fault =>
    refine .inr ⟨fun haccepted => ?_, draft_eq_error hfailure⟩
    rw [haccepted.clean] at hfailure
    cases hfailure
  | none =>
    cases hdraft : s.draft with
    | ok d =>
      obtain ⟨tree⟩ := nonempty_tree hfailure hdraft
      rcases draft_of_tree_cases hfailure tree with ⟨hkept, -⟩ | ⟨-, fault, hfault⟩
      · exact .inl ⟨⟨hfailure, tree, hkept⟩, d, rfl⟩
      · rw [hdraft] at hfault
        cases hfault
    | error fault =>
      refine .inr ⟨fun ⟨_, tree, hkept⟩ => ?_, fault, rfl⟩
      rcases draft_of_tree_cases hfailure tree with ⟨-, d, hd⟩ | ⟨hnot, -⟩
      · rw [hdraft] at hd
        cases hd
      · exact hnot hkept

end Source

/-- A text has a result exactly if it has no lexical fault, its tokens are those of a tree, and
the names of the tree keep their rules.  In every other case it has a fault. -/
theorem compile_eq_ok_iff_accepted (filename text : String) :
    ((∃ c, compile filename text = .ok c) ↔ (Source.ofString filename text).Accepted) ∧
      ((∃ fault, compile filename text = .error fault) ↔
        ¬ (Source.ofString filename text).Accepted) := by
  rw [compile_eq]
  rcases (Source.ofString filename text).draft_cases with
    ⟨haccepted, d, hd⟩ | ⟨hnot, fault, hfault⟩
  · rw [hd]
    refine ⟨⟨fun _ => haccepted, fun _ => ⟨_, rfl⟩⟩, ?_, fun hnot => absurd haccepted hnot⟩
    rintro ⟨fault, hfault⟩
    cases hfault
  · rw [hfault]
    refine ⟨⟨?_, fun haccepted => absurd haccepted hnot⟩, fun _ => hnot, fun _ => ⟨_, rfl⟩⟩
    rintro ⟨c, hc⟩
    cases hc

end PocketBasic

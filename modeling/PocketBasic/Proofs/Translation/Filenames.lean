import PocketBasic.Proofs.Layout

/-!
# The name of a text

The name of a text is cited in places and nowhere else.  So a text that is read under another name
has the same tokens in the same places of another file, and it is compiled to the same code
(`compile_code_of_filename`).
-/

namespace PocketBasic

/-- The same place of another file. -/
def Location.rename (filename : String) (l : Location) : Location := { l with filename := filename }

/-- The same diagnostic about another file. -/
def Diagnostic.rename (filename : String) (d : Diagnostic) : Diagnostic :=
  { d with location := d.location.map (·.rename filename) }

namespace Source

/-- The same text under another name. -/
def rename (filename : String) (s : Source) : Source := { s with filename := filename }

variable (filename : String) (s : Source)

/-- Under another name a source gives the same answers in other places. -/
theorem next_rename :
    (s.rename filename).next =
      (match s.next.1 with
        | .ok t => .ok (t.relocate (·.rename filename))
        | .error d => .error (d.rename filename), s.next.2.rename filename) := by
  unfold next rename
  dsimp only
  split
  · rfl
  · split
    all_goals rfl

variable {s} {s' : Source} {t : Token}

theorem tokenize_of_next_error {d : Diagnostic} (h : s.next = (.error d, s')) :
    s.tokenize = ⟨[], some d, s'⟩ := by
  rw [tokenize]
  split
  all_goals
    rename_i hnext
    rw [h] at hnext
    cases hnext
  rfl

theorem tokenize_of_next_end (h : s.next = (.ok t, s')) (hk : t.kind = .endOfInput) :
    s.tokenize = ⟨[t], none, s'⟩ := by
  rw [tokenize]
  split
  all_goals
    rename_i hnext
    rw [h] at hnext
    cases hnext
  rw [dif_pos hk]

theorem tokenize_of_next_ok (h : s.next = (.ok t, s')) (hk : t.kind ≠ .endOfInput) :
    s.tokenize = { s'.tokenize with tokens := t :: s'.tokenize.tokens } := by
  rw [tokenize]
  split
  all_goals
    rename_i hnext
    rw [h] at hnext
    cases hnext
  rw [dif_neg hk]

/-- Under another name a source has the same tokens and the same fault in other places. -/
theorem tokenize_rename (s : Source) :
    (s.rename filename).tokenize.tokens =
        s.tokenize.tokens.map (Token.relocate (·.rename filename)) ∧
      (s.rename filename).tokenize.failure = s.tokenize.failure.map (·.rename filename) := by
  fun_induction tokenize s with
  | case1 s failure s' hnext =>
    have hrenamed := s.next_rename filename
    rw [hnext] at hrenamed
    rw [tokenize_of_next_error hrenamed]
    exact ⟨rfl, rfl⟩
  | case2 s token s' hnext hk =>
    have hrenamed := s.next_rename filename
    rw [hnext] at hrenamed
    rw [tokenize_of_next_end hrenamed hk]
    exact ⟨rfl, rfl⟩
  | case3 s token s' hnext hk later ih =>
    have hrenamed := s.next_rename filename
    rw [hnext] at hrenamed
    rw [tokenize_of_next_ok hrenamed hk]
    exact ⟨congrArg _ ih.1, ih.2⟩

theorem rename_ofString (filename' text : String) :
    (ofString filename' text).rename filename = ofString filename text := rfl

end Source

/-- A text has lexical faults under all names or under none. -/
theorem failure_eq_none_of_filename {filename text : String} (filename' : String)
    (h : (Source.ofString filename text).tokenize.failure = none) :
    (Source.ofString filename' text).tokenize.failure = none := by
  rw [← Source.rename_ofString filename' filename, (Source.tokenize_rename _ _).2, h]
  rfl

/-- A text is compiled to the same code under all names. -/
theorem compile_code_of_filename {filename text : String} {c : Compiled} (filename' : String)
    (h : compile filename text = .ok c) :
    ∃ c', compile filename' text = .ok c' ∧ c'.code = c.code := by
  obtain ⟨d, hdraft, rfl⟩ := exists_draft_of_compile h
  have hclean := Source.clean_of_draft hdraft
  have hclean' := failure_eq_none_of_filename filename' hclean
  have htokens := (Source.tokenize_rename filename' (.ofString filename text)).1
  rw [Source.rename_ofString] at htokens
  rw [Source.draft_eq_readProgram hclean] at hdraft
  rw [compile_eq, Source.draft_eq_readProgram hclean', htokens]
  have hrenamed := Draft.readProgram_relocate (f := (·.rename filename')) (.start .empty .empty)
    (Source.ofString filename text).tokenize.tokens
  cases hread : (Draft.start .empty .empty).readProgram
      (Source.ofString filename text).tokenize.tokens with
  | error fault =>
    rw [hread] at hdraft
    cases hdraft
  | ok e =>
    rw [hread] at hdraft hrenamed
    obtain rfl := Except.ok.inj hdraft
    have hstart : (Draft.start .empty .empty).relocate (·.rename filename') =
        Draft.start .empty .empty := rfl
    rw [hstart] at hrenamed
    rw [hrenamed]
    exact ⟨_, rfl, rfl⟩

end PocketBasic

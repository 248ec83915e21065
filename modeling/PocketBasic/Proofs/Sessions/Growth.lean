import Mathlib.Data.List.Nodup
import PocketBasic.Proofs.Lexing.Answers
import PocketBasic.Proofs.NameTables
import PocketBasic.Proofs.Translation.Steps

/-!
# Growth

Nothing that a translation has come to is taken back.  A text is only added to at its end, a name
stays declared where it was declared, and a source only moves forward.  `Within` says this of
names, listings and sources, for what they were and what they have become.  It is reflexive and
transitive, so that a run is within what it leads to as soon as every step is.

The declarations of a translation are distinct names (`Names.Distinct`), which is a matter of the
checks that come before each of them, and the tokens in hand are tokens that the source has handed
out (`Source.HandedOut`), which stays true while the source goes on.

Main statement: a run grows, whether it comes to its end or fails in the middle of a statement
(`Translation.within_run`).
-/

namespace PocketBasic

/-! ## Names -/

/-- The names that are known later hold those that were known before, with their places. -/
structure Names.Within (n n' : Names) : Prop where
  variableNames : n.variableNames <+: n'.variableNames
  labels : n.labels <+: n'.labels
  jumps : n.jumps <+: n'.jumps

/-- No name is declared twice, and no two jumps to one label are kept. -/
structure Names.Distinct (n : Names) : Prop where
  variableNames : n.variableNames.Nodup
  labels : (n.labels.map Prod.fst).Nodup
  jumps : (n.jumps.map Prod.fst).Nodup

namespace Names

variable {n n' n'' : Names} {name : String} {place : Location}

theorem Within.refl (n : Names) : n.Within n :=
  ⟨List.prefix_rfl, List.prefix_rfl, List.prefix_rfl⟩

theorem Within.trans (h : n.Within n') (h' : n'.Within n'') : n.Within n'' :=
  ⟨h.variableNames.trans h'.variableNames, h.labels.trans h'.labels, h.jumps.trans h'.jumps⟩

theorem within_declare (n : Names) (d : Declaration) : n.Within (n.declare d) := by
  cases d with
  | ofVariable name =>
    refine ⟨?_, ?_, List.prefix_rfl⟩
    · rw [variableNames_declare_ofVariable]
      exact List.prefix_append _ _
    · simp only [labels_declare_ofVariable, List.prefix_rfl]
  | ofLabel name place =>
    refine ⟨?_, ?_, List.prefix_rfl⟩
    · simp only [variableNames_declare_ofLabel, List.prefix_rfl]
    · rw [labels_declare_ofLabel]
      exact List.prefix_append _ _

theorem within_jump (n : Names) (name : String) (place : Location) :
    n.Within (n.jump name place) := by
  unfold jump
  split
  · exact .refl n
  · exact ⟨List.prefix_rfl, List.prefix_rfl, List.prefix_append _ _⟩

theorem Distinct.empty : Names.empty.Distinct :=
  ⟨List.nodup_nil, List.nodup_nil, List.nodup_nil⟩

/-- A variable that was not declared may be declared. -/
theorem Distinct.declareVariable (h : n.Distinct) (hname : name ∉ n.variableNames) :
    (n.declare (.ofVariable name)).Distinct := by
  refine ⟨?_, ?_, h.jumps⟩
  · rw [variableNames_declare_ofVariable, ← List.concat_eq_append]
    exact h.variableNames.concat hname
  · rw [labels_declare_ofVariable]
    exact h.labels

/-- A label that was not declared may be declared. -/
theorem Distinct.declareLabel (h : n.Distinct) (hname : name ∉ n.labels.map Prod.fst) :
    (n.declare (.ofLabel name place)).Distinct := by
  refine ⟨?_, ?_, h.jumps⟩
  · rw [variableNames_declare_ofLabel]
    exact h.variableNames
  · rw [labels_declare_ofLabel, List.map_append, List.map_singleton, ← List.concat_eq_append]
    exact h.labels.concat hname

theorem Distinct.jump (h : n.Distinct) (name : String) (place : Location) :
    (n.jump name place).Distinct := by
  unfold Names.jump
  split
  · exact h
  · rename_i hknown
    have hname : name ∉ n.jumps.map Prod.fst :=
      isNone_lookup_iff.mp (Option.isNone_iff_eq_none.mpr (Option.not_isSome_iff_eq_none.mp hknown))
    refine ⟨h.variableNames, h.labels, ?_⟩
    rw [List.map_append, List.map_singleton, ← List.concat_eq_append]
    exact h.jumps.concat hname

end Names

/-! ## Listings -/

/-- The later listing begins with the earlier one, in both of its parts. -/
structure Listing.Within (l l' : Listing) : Prop where
  header : l.header.toList <+: l'.header.toList
  body : l.body.toList <+: l'.body.toList

namespace Listing

theorem Within.refl (l : Listing) : l.Within l := ⟨List.prefix_rfl, List.prefix_rfl⟩

theorem Within.trans {l l' l'' : Listing} (h : l.Within l') (h' : l'.Within l'') :
    l.Within l'' :=
  ⟨h.header.trans h'.header, h.body.trans h'.body⟩

theorem within_emit (l : Listing) (text : String) : l.Within (l.emit text) :=
  ⟨List.prefix_rfl, by
    rw [emit, String.toList_append]
    exact List.prefix_append _ _⟩

theorem within_headerLine (l : Listing) (text : String) : l.Within (l.headerLine text) :=
  ⟨by
    rw [headerLine, String.toList_append]
    exact List.prefix_append _ _, List.prefix_rfl⟩

end Listing

/-! ## Drafts -/

/-- A draft holds all that an earlier one has come to, and keeps the names distinct. -/
structure Draft.Within (d e : Draft) : Prop where
  names : d.names.Within e.names
  listing : d.listing.Within e.listing
  distinct : d.names.Distinct → e.names.Distinct

namespace Draft

variable {d e e' : Draft} {name text : String} {place : Location} {t : Token} {next : Control}

theorem Within.refl (d : Draft) : d.Within d := ⟨.refl _, .refl _, id⟩

theorem Within.trans (h : d.Within e) (h' : e.Within e') : d.Within e' :=
  ⟨h.names.trans h'.names, h.listing.trans h'.listing, h'.distinct ∘ h.distinct⟩

/-- Neither the place in the grammar nor the variable to be declared matters. -/
theorem Within.of_eq (h : d.Within e) (hnames : e'.names = e.names)
    (hlisting : e'.listing = e.listing) : d.Within e' := by
  refine ⟨?_, ?_, ?_⟩
  · rw [hnames]
    exact h.names
  · rw [hlisting]
    exact h.listing
  · rw [hnames]
    exact h.distinct

theorem Within.emit (h : d.Within e) (text : String) : d.Within (e.emit text) :=
  h.trans ⟨.refl _, Listing.within_emit _ _, id⟩

theorem Within.emitLine (h : d.Within e) (text : String) : d.Within (e.emitLine text) :=
  h.emit _

theorem Within.declareVariable (h : d.Within e) (name : String) :
    d.Within (e.declareVariable name) := by
  unfold Draft.declareVariable
  split
  · exact h
  · rename_i hname
    exact h.trans ⟨Names.within_declare _ _, Listing.within_headerLine _ _,
      fun hdistinct => hdistinct.declareVariable hname⟩

theorem Within.declareLabel (h : d.Within e) (he : e.declareLabel name place = .ok e') :
    d.Within e' := by
  unfold Draft.declareLabel at he
  split at he
  · cases he
  · rename_i hunknown
    obtain rfl := Except.ok.inj he
    have hname : name ∉ e.names.labels.map Prod.fst :=
      Names.isNone_lookup_iff.mp (Option.isNone_iff_eq_none.mpr hunknown)
    exact h.trans ⟨Names.within_declare _ _, .refl _, fun hdistinct =>
      hdistinct.declareLabel hname⟩

theorem Within.recordJump (h : d.Within e) (name : String) (place : Location) :
    d.Within (e.recordJump name place) :=
  h.trans ⟨Names.within_jump _ _ _, .refl _, fun hdistinct => hdistinct.jump name place⟩

theorem Within.emitInput (h : d.Within e) (name : String) : d.Within (e.emitInput name) :=
  (((h.emitLine _).emitLine _).emitLine _).emitLine _

/-! The moments of a token -/

theorem within_close (d : Draft) (place place' : Place) : d.Within (d.close place place') := by
  unfold close
  split
  · exact (Within.refl d).emitLine _
  · exact (Within.refl d).emit _
  · exact (Within.refl d).emitLine _
  · exact (((Within.refl d).emitLine _).declareVariable d.target).of_eq rfl rfl
  · exact .refl d

theorem within_settle (d : Draft) (k : Kind) : d.Within (d.settle k) :=
  (d.within_close d.control.place (d.control.place.settle k)).of_eq rfl rfl

theorem within_write (d : Draft) (t : Token) : d.Within (d.write t) := by
  unfold write
  split
  · exact (Within.refl d).emit _
  · exact (Within.refl d).emit _
  · exact (Within.refl d).emit _
  · exact (Within.refl d).emitLine _
  · exact .refl d

theorem within_finish (h : d.finish t next = .ok e) : d.Within e := by
  have hnext : d.Within { d with control := next } := (Within.refl d).of_eq rfl rfl
  unfold finish at h
  dsimp only at h
  split at h
  case h_1 =>
    split at h <;> obtain rfl := Except.ok.inj h
    · exact hnext.emit _
    · exact hnext.emit _
    · exact hnext.emitLine _
    · exact hnext.emitLine _
    · exact hnext
  case h_2 =>
    split at h
    · cases h
    · rename_i declared hdeclared
      obtain rfl := Except.ok.inj h
      exact (hnext.declareLabel hdeclared).emitLine _
  case h_3 =>
    obtain rfl := Except.ok.inj h
    exact (hnext.recordJump _ _).emitLine _
  case h_4 =>
    obtain rfl := Except.ok.inj h
    exact hnext.of_eq rfl rfl
  case h_5 =>
    obtain rfl := Except.ok.inj h
    exact hnext.emit _
  case h_6 =>
    obtain rfl := Except.ok.inj h
    exact (hnext.declareVariable _).emitInput _
  case h_7 =>
    obtain rfl := Except.ok.inj h
    exact hnext

theorem within_conclude (h : d.conclude = .ok e) : d.Within e := by
  unfold conclude at h
  split at h
  · cases h
  · obtain rfl := Except.ok.inj h
    exact ((Within.refl d).emitLine _).emitLine _

end Draft

/-! ## Sources -/

namespace Cursor

theorem advance_add (m n : ℕ) (c : Cursor) : advance (m + n) c = advance n (advance m c) := by
  induction m generalizing c with
  | zero => rw [Nat.zero_add, advance]
  | succ m ih => rw [Nat.succ_add, advance, advance, ih]

theorem exists_skipLayout (c : Cursor) : ∃ n, c.skipLayout = advance n c := by
  unfold skipLayout skipComment
  split
  · exact ⟨_, (advance_add _ _ c).symm⟩
  · exact ⟨_, rfl⟩

end Cursor

/-- The later source stands in the same text, not before the earlier one, and has counted no
fewer tokens. -/
structure Source.Within (s s' : Source) : Prop where
  filename : s'.filename = s.filename
  text : s'.text = s.text
  cursor : ∃ n, s'.cursor = Cursor.advance n s.cursor
  produced : s.produced ≤ s'.produced

/-- The token is an answer that the source has given, however long ago. -/
def Source.HandedOut (s : Source) (t : Token) : Prop :=
  ∃ (before : Source) (n : ℕ), before.next.1 = .ok t ∧ before.next.2.after n = s

namespace Source

variable {s s' s'' : Source} {t : Token}

theorem Within.refl (s : Source) : s.Within s := ⟨rfl, rfl, ⟨0, rfl⟩, Nat.le_refl _⟩

theorem Within.trans (h : s.Within s') (h' : s'.Within s'') : s.Within s'' := by
  obtain ⟨m, hm⟩ := h.cursor
  obtain ⟨n, hn⟩ := h'.cursor
  refine ⟨h'.filename.trans h.filename, h'.text.trans h.text, ⟨m + n, ?_⟩,
    h.produced.trans h'.produced⟩
  rw [Cursor.advance_add, ← hm, hn]

theorem within_next (s : Source) : s.Within s.next.2 := by
  obtain ⟨m, hm⟩ := s.cursor.exists_skipLayout
  obtain ⟨htext, hfilename⟩ := s.next_text
  refine ⟨hfilename, htext, ?_, ?_⟩
  · unfold next
    dsimp only
    split
    · exact ⟨m, hm⟩
    · split
      all_goals exact ⟨m + _, by rw [Cursor.advance_add, ← hm]⟩
  · rw [produced_next]
    exact Nat.le_add_right _ _

theorem within_after (s : Source) (n : ℕ) : s.Within (s.after n) := by
  induction n with
  | zero => exact .refl s
  | succ n ih => exact ih.trans (within_next _)

theorem HandedOut.after (h : s.HandedOut t) (n : ℕ) : (s.after n).HandedOut t := by
  obtain ⟨before, m, hanswer, rfl⟩ := h
  exact ⟨before, m + n, hanswer, (after_after _ m n).symm⟩

theorem handedOut_next (h : s.next.1 = .ok t) : s.next.2.HandedOut t := ⟨s, 0, h, rfl⟩

/-- Reading all tokens leads to where as many answers lead. -/
theorem exists_tokenize_source (s : Source) : ∃ n, s.tokenize.source = s.after n := by
  fun_induction tokenize s with
  | case1 s failure s' hnext => exact ⟨1, by rw [after, after, hnext]⟩
  | case2 s token s' hnext hk => exact ⟨1, by rw [after, after, hnext]⟩
  | case3 s token s' hnext hk later ih =>
    obtain ⟨n, hn⟩ := ih
    refine ⟨n + 1, ?_⟩
    rw [← after_next, hnext]
    exact hn

end Source

/-! ## Translations -/

/-- The tokens in hand are tokens that the source has handed out. -/
structure Translator.InHand (r : Translator) (s : Source) : Prop where
  current : s.HandedOut r.current
  upcoming : s.HandedOut r.upcoming

/-- A translation that has come from another one. -/
structure Translation.Within (t u : Translation) : Prop where
  draft : t.toDraft.Within u.toDraft
  source : ∃ n, u.source = t.source.after n
  inHand : t.toTranslator.InHand t.source → u.toTranslator.InHand u.source

namespace Translation

variable {t u v : Translation}

theorem Within.refl (t : Translation) : t.Within t := ⟨.refl _, ⟨0, rfl⟩, id⟩

theorem Within.trans (h : t.Within u) (h' : u.Within v) : t.Within v := by
  obtain ⟨m, hm⟩ := h.source
  obtain ⟨n, hn⟩ := h'.source
  exact ⟨h.draft.trans h'.draft, ⟨m + n, by rw [hn, hm, Source.after_after]⟩,
    h'.inHand ∘ h.inHand⟩

theorem Within.withDraft {d : Draft} (h : t.Within u) (hd : u.toDraft.Within d) :
    t.Within (u.withDraft d) :=
  ⟨h.draft.trans hd, h.source, fun hin => ⟨(h.inHand hin).current, (h.inHand hin).upcoming⟩⟩

theorem within_fetch (t : Translation) : t.Within t.fetch.2 := by
  refine ⟨?_, ⟨1, ?_⟩, ?_⟩
  · rw [toDraft_fetch]
    exact .refl _
  · unfold fetch
    rw [Source.after, Source.after]
    split
    all_goals
      rename_i hnext
      rw [hnext]
  · intro h
    have hupcoming := h.upcoming.after 1
    rw [Source.after, Source.after] at hupcoming
    unfold fetch
    split
    · rename_i token source hnext
      have hanswer : t.source.next.1 = .ok token := by rw [hnext]
      have hfetched := Source.handedOut_next hanswer
      rw [hnext] at hupcoming hfetched
      exact ⟨hupcoming, hfetched⟩
    · rename_i d source hnext
      rw [hnext] at hupcoming
      exact ⟨hupcoming, hupcoming⟩

/-- A step grows, wherever it leads. -/
theorem within_step (t : Translation) : t.Within t.step.reached := by
  have hsettled : t.toDraft.Within t.settled := Draft.within_settle _ _
  have hfetched : t.Within t.fetched :=
    ((Within.refl t).withDraft (hsettled.trans (Draft.within_write _ _))).trans (within_fetch _)
  have hreached := t.reached_step
  generalize t.step.reached = u at hreached ⊢
  cases hreached with
  | settled => exact (Within.refl t).withDraft hsettled
  | concluded h => exact (Within.refl t).withDraft (hsettled.trans (Draft.within_conclude h))
  | fetched => exact hfetched
  | finished h =>
    refine hfetched.withDraft ?_
    rw [fetched, toDraft_fetch]
    exact Draft.within_finish h

/-- A run grows, wherever it ends. -/
theorem within_run (t : Translation) : t.Within t.run.2 :=
  run_preserves (P := fun u => t.Within u) (fun u h => h.trans u.within_step) (.refl t)

/-- What a translator knows and what it writes to grow while it translates another program. -/
theorem within_translate (r : Translator) (s : Source) (l : Listing) :
    r.names.Within (translate r s l).2.names ∧ l.Within (translate r s l).2.listing ∧
      (r.names.Distinct → (translate r s l).2.names.Distinct) ∧
      (∃ n, (translate r s l).2.source = s.after n) ∧
      (r.InHand s → (translate r s l).2.toTranslator.InHand (translate r s l).2.source) := by
  have h := (start r s l).within_run
  have hopening : l.Within (start r s l).listing :=
    (l.within_headerLine _).trans (Listing.within_headerLine _ _)
  exact ⟨h.draft.names, hopening.trans h.draft.listing, h.draft.distinct, h.source, h.inHand⟩

end Translation
end PocketBasic

import PocketBasic.Proofs.Translation.Declarations
import PocketBasic.Proofs.Translation.Programs
import PocketBasic.Proofs.Translation.Relocation

/-!
# One program behind another

A program ends where a program may begin: before a statement, outside of all blocks, with line
ends passed over.  So the tokens of a whole source can be read there as they are read at the
beginning (`reads_source_behind`).

What can go wrong with the names is less plain.  A program that is right by itself is right
behind others that declare none of its labels (`AllAllowed.behind`), since a variable more that
is declared refuses nothing.  If they do declare one of its labels, the first of its labels that
they declare is where heeding its mentions ends (`Draft.Knows.heedAll_eq_clash`).
-/

namespace PocketBasic

/-! ## Mentions elsewhere -/

namespace Mention

variable (f : Location → Location) (ms : List Mention)

theorem filterMap_target?_relocate :
    (ms.map (.relocate f)).filterMap target? = ms.filterMap target? := by
  rw [List.filterMap_map]
  congr 1
  funext m
  cases m <;> rfl

theorem filterMap_label?_relocate :
    (ms.map (.relocate f)).filterMap label? = (ms.filterMap label?).map (Prod.map id f) := by
  rw [List.filterMap_map, List.map_filterMap]
  congr 1
  funext m
  cases m <;> rfl

theorem filterMap_jump?_relocate :
    (ms.map (.relocate f)).filterMap jump? = (ms.filterMap jump?).map (Prod.map id f) := by
  rw [List.filterMap_map, List.map_filterMap]
  congr 1
  funext m
  cases m <;> rfl

end Mention

/-- The names of the labels among mentions. -/
def labelNames (ms : List Mention) : List String := (ms.filterMap Mention.label?).map Prod.fst

theorem labelNames_append (ms ns : List Mention) :
    labelNames (ms ++ ns) = labelNames ms ++ labelNames ns := by
  rw [labelNames, List.filterMap_append, List.map_append, labelNames, labelNames]

theorem labelNames_relocate (f : Location → Location) (ms : List Mention) :
    labelNames (ms.map (.relocate f)) = labelNames ms := by
  rw [labelNames, Mention.filterMap_label?_relocate, List.map_map, labelNames]
  rfl

/-! ## What mentions allow behind others -/

variable {earlier before ms : List Mention} {m : Mention}

/-- Whether a mention is right is not a matter of places. -/
theorem Mention.Allowed.relocate (h : m.Allowed before) (f : Location → Location) :
    (m.relocate f).Allowed (before.map (.relocate f)) := by
  cases m with
  | use t =>
    rw [Mention.relocate, Mention.Allowed, Mention.filterMap_target?_relocate]
    exact h
  | label t =>
    show t.text ∉ labelNames (before.map (.relocate f))
    rw [labelNames_relocate]
    exact h
  | assign t | jump t => trivial

theorem AllAllowed.relocate (h : AllAllowed before ms) (f : Location → Location) :
    AllAllowed (before.map (.relocate f)) (ms.map (.relocate f)) := by
  induction ms generalizing before with
  | nil => trivial
  | cons m ms ih =>
    have hms := ih h.2
    rw [List.map_append] at hms
    exact ⟨h.1.relocate f, hms⟩

/-- A mention that is right stays so behind others, unless it declares a label of theirs. -/
theorem Mention.Allowed.behind (h : m.Allowed before)
    (hnew : ∀ name ∈ labelNames [m], name ∉ labelNames earlier) :
    m.Allowed (earlier ++ before) := by
  cases m with
  | use t =>
    rw [Mention.Allowed, List.filterMap_append]
    exact List.mem_append_right _ h
  | label t =>
    show t.text ∉ labelNames (earlier ++ before)
    rw [labelNames_append, List.mem_append, not_or]
    exact ⟨hnew t.text List.mem_cons_self, h⟩
  | assign t | jump t => trivial

theorem AllAllowed.behind (h : AllAllowed before ms)
    (hnew : ∀ name ∈ labelNames ms, name ∉ labelNames earlier) :
    AllAllowed (earlier ++ before) ms := by
  induction ms generalizing before with
  | nil => trivial
  | cons m ms ih =>
    rw [← List.singleton_append, labelNames_append, List.forall_mem_append] at hnew
    refine ⟨h.1.behind hnew.1, ?_⟩
    rw [List.append_assoc]
    exact ih h.2 hnew.2

theorem AllAllowed.append (h : AllAllowed before ms) {ns : List Mention}
    (hns : AllAllowed (before ++ ms) ns) : AllAllowed before (ms ++ ns) := by
  induction ms generalizing before with
  | nil => rwa [List.append_nil] at hns
  | cons m ms ih =>
    refine ⟨h.1, ih h.2 ?_⟩
    rwa [List.append_assoc, List.singleton_append]

/-- Only a label that is declared can be one that was declared before. -/
theorem exists_of_find?_labelNames {names : List String} {name : String}
    (h : (labelNames [m]).find? (· ∈ names) = some name) :
    ∃ t, m = .label t ∧ t.text = name ∧ name ∈ names := by
  have hname : name ∈ labelNames [m] := List.mem_of_find?_eq_some h
  have hknown : name ∈ names := by simpa using List.find?_some h
  cases m with
  | label t => exact ⟨t, rfl, (List.mem_singleton.mp hname).symm, hknown⟩
  | use t | assign t | jump t => cases hname

/-- Mentions that are right by themselves are heeded behind others up to the first label that
these declare, and what is reported there is where they declare it. -/
theorem Draft.Knows.heedAll_eq_clash {d : Draft} (h : d.Knows (earlier ++ before))
    (hallowed : AllAllowed before ms) {name : String}
    (hclash : (labelNames ms).find? (· ∈ labelNames earlier) = some name) :
    ∃ first place, (earlier.filterMap Mention.label?).lookup name = some first ∧
      (name, place) ∈ ms.filterMap Mention.label? ∧
      d.heedAll ms = .error (.naming (.duplicateLabel name (some first)), place) := by
  induction ms generalizing d before with
  | nil => cases hclash
  | cons m ms ih =>
    rw [← List.singleton_append, labelNames_append, List.find?_append, Option.or_eq_some_iff] at hclash
    rcases hclash with hm | ⟨hm, hms⟩
    · obtain ⟨t, rfl, rfl, hearlier⟩ := exists_of_find?_labelNames hm
      have hsome : ((earlier.filterMap Mention.label?).lookup t.text).isNone ≠ true := by
        rw [Ne, Names.isNone_lookup_iff, Classical.not_not]
        exact hearlier
      obtain ⟨first, hfirst⟩ := Option.ne_none_iff_exists'.mp
        (mt Option.isNone_iff_eq_none.mpr hsome)
      have hlookup : d.names.labels.lookup t.text = some first := by
        rw [h.labels, List.filterMap_append, List.lookup_append, hfirst]
        rfl
      refine ⟨first, t.location, hfirst, List.mem_cons_self, ?_⟩
      rw [Draft.heedAll, Draft.heed, declareLabel_eq_error hlookup]
      rfl
    · have hnew : ∀ name ∈ labelNames [m], name ∉ labelNames earlier := by
        simpa using List.find?_eq_none.mp hm
      obtain ⟨e, he, hknows⟩ := h.heed (hallowed.1.behind hnew)
      rw [List.append_assoc] at hknows
      obtain ⟨first, place, hfirst, hplace, hheed⟩ := ih hknows hallowed.2 hms
      refine ⟨first, place, hfirst, ?_, ?_⟩
      · rw [← List.singleton_append, List.filterMap_append]
        exact List.mem_append_right _ hplace
      · rw [Draft.heedAll, he]
        exact hheed

/-! ## Reading -/

/-- The places outside of all blocks where a program may begin. -/
inductive Place.MayBegin : Place → Prop where
  | beginning : MayBegin .beginning
  | blankLines : MayBegin (.blankLines false)

/-- The line ends and statements of a source are read up to a place where a program may begin. -/
theorem exists_reads_front (blanks : List (Terminal .newline)) (p : Program) :
    ∃ place : Place, place.MayBegin ∧
      Reads ⟨.start, ""⟩ (leafTokens blanks ++ p.tokens) p.mentions (unlines p.lines)
        ⟨⟨place, []⟩, ""⟩ := by
  have hblanks : Reads ⟨.start, ""⟩ (leafTokens blanks) [] "" ⟨.start, ""⟩ :=
    reads_newlines .beginning blanks
  cases p with
  | nil =>
    refine ⟨.beginning, .beginning, ?_⟩
    rw [Program.tokens, Program.mentions, Program.lines, List.append_nil]
    exact hblanks
  | cons statement rest =>
    refine ⟨.blankLines false, .blankLines, ?_⟩
    have hprogram := reads_program (statement :: rest) []
    obtain ⟨t, ts, hts, hk⟩ := Program.exists_tokens_cons statement rest
    rw [hts] at hprogram ⊢
    have h := hblanks.append (hprogram.at_beginning hk)
    rwa [List.nil_append, String.empty_append] at h

/-- The tokens of a source are read wherever a program may begin. -/
theorem reads_source_behind {place : Place} (hplace : place.MayBegin)
    (blanks : List (Terminal .newline)) (p : Program) (last : Terminal .endOfInput) :
    Reads ⟨⟨place, []⟩, ""⟩ (leafTokens blanks ++ (p.tokens ++ [last.1])) p.mentions
      (unlines p.lines) ⟨⟨.statement, []⟩, ""⟩ := by
  cases hplace with
  | beginning => exact reads_source blanks p last
  | blankLines =>
    have hlast : last.1.kind ≠ .newline := last.kind_ne Kind.noConfusion
    have hend : Reads ⟨⟨.blankLines false, []⟩, ""⟩ [last.1] [] "" ⟨⟨.statement, []⟩, ""⟩ :=
      (reads_endOfInput last).following hlast
    have h := (reads_newlines (x := "") (.blank false) blanks).append
      ((reads_program p []).append hend)
    rwa [List.nil_append, List.append_nil, String.empty_append, String.append_empty] at h

end PocketBasic

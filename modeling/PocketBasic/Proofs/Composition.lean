import Mathlib
import PocketBasic.Proofs.Lexing.Writing
import PocketBasic.Proofs.ReferenceTranslation
import PocketBasic.Proofs.Translation.Joining

/-!
# Compiling composes

Two sources that are compiled can be compiled as one, with a line end between them, unless they
declare the same label.  The code is then made of the parts of theirs (`Translation.JoinOf`).  If
they do declare the same label, the second declaration is what is reported.

The tokens of the two sources are those of the first, without the end of the input, and then
those of the second, further down (`Source.tokenize_behind`).  The first part is read up to a
place where a program may begin, and there the second part is read as it is read by itself
(`Source.reads_joined`).  What is left are the names, since all of the second program is read
with the names of the first one declared.

Main statement: `compile_joined`.
-/

namespace PocketBasic

/-! ## Tokens and mentions of two sources -/

namespace Source

variable {filename first second : String}

/-- The tokens of two sources that are read without a fault: the end of the input of the first is
left out, and the tokens of the second stand further down. -/
theorem tokenize_behind {front : List Token} {last : Token}
    (hclean : (ofString filename first).tokenize.failure = none)
    (hclean' : (ofString filename second).tokenize.failure = none)
    (hfront : (ofString filename first).tokenize.tokens = front ++ [last]) :
    (ofString filename (first ++ "\n" ++ second)).tokenize.failure = none ∧
      (ofString filename (first ++ "\n" ++ second)).tokenize.tokens =
        front ++ (ofString filename second).tokenize.tokens.map
          (Token.relocate (Location.moveDown (1 + first.toList.count '\n'))) := by
  obtain ⟨gs, hgs⟩ := (wholeLines_concat first.toList).exists_cutInto
  have hfirst := events_ofString filename hgs
  rw [events_of_clean hclean, hfront, List.map_append, answersBehind] at hfirst
  have hanswers : segmentAnswers filename [] gs = front.map .ok :=
    (List.append_inj' hfirst rfl).1.symm
  refine tokenize_of_events ?_
  rw [events_behind filename hgs, events_of_clean hclean', hanswers, List.map_append, List.map_map,
    List.map_map]
  rfl

/-- The tokens of two sources are read one program behind the other. -/
theorem reads_joined (hclean : (ofString filename first).tokenize.failure = none)
    (hclean' : (ofString filename second).tokenize.failure = none)
    (tree : (ofString filename first).Tree) (tree' : (ofString filename second).Tree) :
    Reads ⟨.start, ""⟩ (ofString filename (first ++ "\n" ++ second)).tokenize.tokens
      (tree.program.mentions ++ tree'.program.mentions.map
        (.relocate (Location.moveDown (1 + first.toList.count '\n'))))
      (unlines tree.program.lines ++ unlines tree'.program.lines) ⟨⟨.statement, []⟩, ""⟩ := by
  have hup (place : Location) :
      Location.moveDown (1 + first.toList.count '\n')
        { place with line := place.line - ↑(1 + first.toList.count '\n') } = place := by
    simp [Location.moveDown]
  have hfront : (ofString filename first).tokenize.tokens =
      leafTokens tree.blanks ++ tree.program.tokens ++ [tree.last.1] := by
    rw [tree.tokens_eq, List.append_assoc]
  obtain ⟨place, hplace, hread⟩ := exists_reads_front tree.blanks tree.program
  have hread' := reads_source_behind hplace tree'.blanks tree'.program tree'.last
  rw [← tree'.tokens_eq] at hread'
  rw [(tokenize_behind hclean hclean' hfront).2]
  exact hread.append (hread'.relocate hup)

/-! ## Drafts of programs that keep the rules of names -/

variable {s : Source}

/-- A source whose tokens are read in a way that is known is translated, if the names that are
mentioned in it keep their rules. -/
theorem exists_draft_of_reads (hclean : s.tokenize.failure = none) {ms : List Mention}
    {text : String} {s' : Stance} (h : Reads ⟨.start, ""⟩ s.tokenize.tokens ms text s')
    (hallowed : AllAllowed [] ms) (hjumps : JumpsLand ms) :
    ∃ d, s.draft = .ok d ∧ d.Knows ms ∧ d.listing.body = text ++ unlines epilogue := by
  rcases Draft.knows_start.heedAll ms with ⟨-, e, he, hknows⟩ | ⟨hnot, -⟩
  · rw [List.nil_append] at hknows
    rw [draft_of_reads hclean h, he]
    refine ⟨((e.move text s').emitLine "return 0;").emitLine "\x7d", ?_,
      ⟨hknows.declared, hknows.labels, hknows.jumps, hknows.header⟩, ?_⟩
    · show Draft.concludeAt _ _ = _
      rw [Draft.concludeAt, Draft.conclude, Draft.names_move,
        hknows.danglingJump?_eq_none_iff.mpr hjumps]
      rfl
    · have hbody : e.listing.body = "" := Draft.body_heedAll he
      show ((e.listing.body ++ text) ++ ("return 0;" ++ "\n")) ++ ("\x7d" ++ "\n") = _
      rw [hbody, String.empty_append, String.append_assoc]
      rfl
  · exact absurd hallowed hnot

/-- All that is known of a source with a translation: its tree, whose names keep their rules, what
has been written to the body, and how many tokens there are. -/
structure Translated (s : Source) (t : Translation) where
  clean : s.tokenize.failure = none
  tree : s.Tree
  knows : t.Knows tree.program.mentions
  allowed : AllAllowed [] tree.program.mentions
  jumpsLand : JumpsLand tree.program.mentions
  body : t.listing.body = unlines tree.program.lines ++ unlines epilogue
  count : t.source.produced = s.tokenize.tokens.length - 1

end Source

/-! ## Results of two sources -/

theorem JumpsLand.append {ms ns : List Mention} (hms : JumpsLand ms) (hns : JumpsLand ns) :
    JumpsLand (ms ++ ns) := by
  intro jump hjump
  rw [List.filterMap_append, List.mem_append] at hjump
  rw [List.filterMap_append, List.map_append, List.mem_append]
  exact hjump.imp (hms jump) (hns jump)

theorem JumpsLand.relocate {ms : List Mention} (h : JumpsLand ms) (f : Location → Location) :
    JumpsLand (ms.map (.relocate f)) := by
  intro jump hjump
  rw [Mention.filterMap_jump?_relocate] at hjump
  obtain ⟨jump, hmem, rfl⟩ := List.mem_map.mp hjump
  show jump.1 ∈ labelNames (ms.map (.relocate f))
  rw [labelNames_relocate]
  exact h jump hmem

theorem eraseDups_filter (p : String → Bool) (xs : List String) :
    (xs.filter p).eraseDups = xs.eraseDups.filter p := by
  induction xs using List.reverseRecOn with
  | nil => rfl
  | append_singleton xs x ih =>
    rw [List.filter_append, eraseDups_concat]
    by_cases hx : p x
    · rw [List.filter_cons_of_pos hx, List.filter_nil, eraseDups_concat, ih]
      simp only [List.mem_filter, hx, and_true]
      split
      · rfl
      · rw [List.filter_append, List.filter_cons_of_pos hx, List.filter_nil]
    · rw [List.filter_cons_of_neg hx, List.filter_nil, List.append_nil, ih]
      split
      · rfl
      · rw [List.filter_append, List.filter_cons_of_neg hx, List.filter_nil, List.append_nil]

/-- Of two lists, the second counts only with what is new in it. -/
theorem eraseDups_append_eq (xs ys : List String) :
    (xs ++ ys).eraseDups =
      xs.eraseDups ++ ys.eraseDups.filter fun y => y ∉ xs.eraseDups := by
  rw [List.eraseDups_append, List.removeAll, eraseDups_filter]
  congr 2
  funext y
  simp

/-- What two translations and the one of both programs have to do with each other.  The body, but
for the closing lines, is that of the first program and then that of the second; in the header,
the second program declares only the variables that the first does not; labels follow each
other, variables are united, and tokens are added up. -/
structure Translation.JoinOf (t t₁ t₂ : Translation) : Prop where
  body : ∃ body₁ body₂, t₁.listing.body = body₁ ++ unlines epilogue ∧
    t₂.listing.body = body₂ ++ unlines epilogue ∧
    t.listing.body = body₁ ++ body₂ ++ unlines epilogue
  header : t.listing.header = t₁.listing.header ++
    unlines ((t₂.names.variableNames.filter (· ∉ t₁.names.variableNames)).map Draft.declarationLine)
  labels : t.names.labels.map Prod.fst =
    t₁.names.labels.map Prod.fst ++ t₂.names.labels.map Prod.fst
  pairwise_variables : t.names.sortedVariables.Pairwise (· < ·)
  mem_variables : ∀ name, name ∈ t.names.sortedVariables ↔
    name ∈ t₁.names.sortedVariables ∨ name ∈ t₂.names.sortedVariables
  tokenCount : t.source.produced = t₁.source.produced + t₂.source.produced

/-- All is known of a text that has a translation. -/
theorem nonempty_translated {filename text : String} {t : Translation}
    (h : (translateText filename text).result = .ok t) :
    Nonempty ((Source.ofString filename text).Translated t) := by
  rcases translateText_cases filename text with ⟨fault, hfault, -⟩ | ⟨t', hresult, hdraft, hcount⟩
  · rw [h] at hfault
    cases hfault
  · rw [h] at hresult
    obtain rfl := Except.ok.inj hresult
    have hclean := Source.clean_of_draft hdraft
    obtain ⟨tree⟩ := Source.nonempty_tree hclean hdraft
    rcases Source.draft_of_tree_cases hclean tree with
      ⟨⟨huses, hlabels, hjumps⟩, -⟩ | ⟨-, fault, hfault⟩
    · have hread := reads_source tree.blanks tree.program tree.last
      rw [← tree.tokens_eq] at hread
      have hallowed := (allAllowed_iff _).mpr ⟨huses, hlabels⟩
      obtain ⟨d, hd, hknows, hbody⟩ := Source.exists_draft_of_reads hclean hread hallowed hjumps
      rw [hdraft] at hd
      obtain rfl := Except.ok.inj hd
      exact ⟨hclean, tree, hknows, hallowed, hjumps, hbody, hcount⟩
    · rw [hdraft] at hfault
      cases hfault

theorem exists_result_of_draft {filename text : String} {d : Draft}
    (h : (Source.ofString filename text).draft = .ok d) :
    ∃ t, (translateText filename text).result = .ok t ∧ t.toDraft = d ∧
      t.source.produced = (Source.ofString filename text).tokenize.tokens.length - 1 := by
  rcases translateText_cases filename text with ⟨fault, -, hfault⟩ | ⟨t, hresult, hdraft, hcount⟩
  · rw [h] at hfault
    cases hfault
  · rw [h] at hdraft
    exact ⟨t, hresult, (Except.ok.inj hdraft).symm, hcount⟩

/-- Drafts that know the mentions of two programs and of both are joined. -/
theorem Translation.joinOf_of_knows {f : Location → Location} {t t₁ t₂ : Translation}
    {ms ns : List Mention} {text text' : String} (h : t.Knows (ms ++ ns.map (.relocate f)))
    (h₁ : t₁.Knows ms) (h₂ : t₂.Knows ns) (hbody : t.listing.body = text ++ text' ++ unlines epilogue)
    (hbody₁ : t₁.listing.body = text ++ unlines epilogue)
    (hbody₂ : t₂.listing.body = text' ++ unlines epilogue)
    (hcount : t.source.produced = t₁.source.produced + t₂.source.produced) : t.JoinOf t₁ t₂ := by
  have hvariables : t.names.variableNames = t₁.names.variableNames ++
      t₂.names.variableNames.filter (· ∉ t₁.names.variableNames) := by
    rw [h.declared, h₁.declared, h₂.declared, List.filterMap_append,
      Mention.filterMap_target?_relocate, eraseDups_append_eq]
  refine ⟨⟨text, text', hbody₁, hbody₂, hbody⟩, ?_, ?_, pairwise_lt_sortedVariables ?_, ?_, hcount⟩
  · rw [h.header, h₁.header, hvariables, List.map_append, ← List.append_assoc, unlines_append]
  · rw [h.labels, h₁.labels, h₂.labels]
    show labelNames _ = labelNames _ ++ labelNames _
    rw [labelNames_append, labelNames_relocate]
  · rw [h.declared]
    exact nodup_eraseDups _
  · intro name
    simp only [Names.sortedVariables, List.mem_mergeSort, hvariables, List.mem_append,
      List.mem_filter, decide_eq_true_eq]
    tauto

section Joined

variable {filename first second : String} {t₁ t₂ : Translation}

/-- Of two texts that declare no common label, the second is translated behind the first. -/
theorem exists_joined_of_new (h₁ : (Source.ofString filename first).Translated t₁)
    (h₂ : (Source.ofString filename second).Translated t₂)
    (hnew : ∀ name ∈ labelNames h₂.tree.program.mentions,
      name ∉ labelNames h₁.tree.program.mentions) :
    ∃ t, (translateText filename (first ++ "\n" ++ second)).result = .ok t ∧ t.JoinOf t₁ t₂ := by
  have hfront := h₁.tree.tokens_eq.trans (List.append_assoc _ _ _).symm
  obtain ⟨hclean, htokens⟩ := Source.tokenize_behind h₁.clean h₂.clean hfront
  have hallowed := h₂.allowed.relocate (Location.moveDown (1 + first.toList.count '\n'))
  rw [← labelNames_relocate (Location.moveDown (1 + first.toList.count '\n'))] at hnew
  have hbehind := hallowed.behind hnew
  rw [List.map_nil, List.append_nil, ← List.nil_append h₁.tree.program.mentions] at hbehind
  obtain ⟨d, hdraft, hknows, hbody⟩ := Source.exists_draft_of_reads hclean
    (Source.reads_joined h₁.clean h₂.clean h₁.tree h₂.tree)
    (h₁.allowed.append hbehind) (h₁.jumpsLand.append (h₂.jumpsLand.relocate _))
  obtain ⟨t, hresult, rfl, hcount⟩ := exists_result_of_draft hdraft
  refine ⟨t, hresult, Translation.joinOf_of_knows hknows h₁.knows h₂.knows hbody h₁.body h₂.body ?_⟩
  -- of the two ends of the input only the second is left
  have hlast : 0 < (Source.ofString filename second).tokenize.tokens.length := by
    rw [h₂.tree.tokens_eq]
    simp
  have hlength := congrArg List.length hfront
  rw [List.length_append, List.length_singleton] at hlength
  rw [hcount, h₁.count, h₂.count, htokens, hlength, List.length_append, List.length_map]
  omega

/-- Of two texts that declare a common label, the second fails behind the first. -/
theorem exists_fault_of_clash (h₁ : (Source.ofString filename first).Translated t₁)
    (h₂ : (Source.ofString filename second).Translated t₂) {name : String}
    (hclash : (labelNames h₂.tree.program.mentions).find?
      (· ∈ labelNames h₁.tree.program.mentions) = some name) :
    ∃ d original place, compile filename (first ++ "\n" ++ second) = .error d ∧
      d.cause = .naming (.duplicateLabel name (some original)) ∧
      t₁.names.labels.lookup name = some original ∧
      d.location = some (place.moveDown (1 + first.toList.count '\n')) ∧
      (name, place) ∈ t₂.names.labels := by
  have hfront := h₁.tree.tokens_eq.trans (List.append_assoc _ _ _).symm
  obtain ⟨hclean, -⟩ := Source.tokenize_behind h₁.clean h₂.clean hfront
  have hallowed := h₂.allowed.relocate (Location.moveDown (1 + first.toList.count '\n'))
  rw [← labelNames_relocate (Location.moveDown (1 + first.toList.count '\n'))
    h₂.tree.program.mentions] at hclash
  rcases Draft.knows_start.heedAll h₁.tree.program.mentions with ⟨-, e, he, hknows⟩ | ⟨hnot, -⟩
  · rw [List.nil_append, ← List.append_nil h₁.tree.program.mentions] at hknows
    obtain ⟨original, place, hfirst, hplace, hheed⟩ := hknows.heedAll_eq_clash hallowed hclash
    rw [Mention.filterMap_label?_relocate] at hplace
    obtain ⟨⟨name', place⟩, hmem, hmoved⟩ := List.mem_map.mp hplace
    obtain ⟨rfl, rfl⟩ := Prod.mk.inj hmoved
    have hreads := Source.reads_joined h₁.clean h₂.clean h₁.tree h₂.tree
    refine ⟨(Source.ofString filename (first ++ "\n" ++ second)).report
      (.naming (.duplicateLabel name' (some original)))
      (place.moveDown (1 + first.toList.count '\n')), original, place, ?_, rfl, ?_, rfl, ?_⟩
    · rw [compile_eq, Source.draft_of_reads hclean hreads, Draft.heedAll_append, he]
      show Except.map _ (Except.bind (Except.mapError _ (e.heedAll _)) _) = _
      rw [hheed]
      rfl
    · rw [h₁.knows.labels]
      exact hfirst
    · rw [h₂.knows.labels]
      exact hmem
  · exact absurd h₁.allowed hnot

end Joined

/-- Compiling composes.  Of two texts that have results, with a line end between them: if they
declare no common label, they have a result that is joined of theirs.  Else they are at fault
where the second text declares the first of its labels that is one of the first text, and the
fault cites the place where the first text declares it. -/
theorem compile_joined {filename first second : String} {t₁ t₂ : Translation}
    (h₁ : (translateText filename first).result = .ok t₁)
    (h₂ : (translateText filename second).result = .ok t₂) :
    ((∀ name ∈ t₂.names.labels.map Prod.fst, name ∉ t₁.names.labels.map Prod.fst) →
      ∃ t, (translateText filename (first ++ "\n" ++ second)).result = .ok t ∧
        compile filename (first ++ "\n" ++ second) = .ok (.ofTranslation filename t) ∧
        t.JoinOf t₁ t₂) ∧
    ∀ name, (t₂.names.labels.map Prod.fst).find? (· ∈ t₁.names.labels.map Prod.fst) = some name →
      ∃ d original place, compile filename (first ++ "\n" ++ second) = .error d ∧
        d.cause = .naming (.duplicateLabel name (some original)) ∧
        t₁.names.labels.lookup name = some original ∧
        d.location = some (place.moveDown (1 + first.toList.count '\n')) ∧
        (name, place) ∈ t₂.names.labels := by
  obtain ⟨translated₁⟩ := nonempty_translated h₁
  obtain ⟨translated₂⟩ := nonempty_translated h₂
  constructor
  · intro hnew
    rw [translated₁.knows.labels, translated₂.knows.labels] at hnew
    obtain ⟨t, hresult, hjoin⟩ := exists_joined_of_new translated₁ translated₂ hnew
    refine ⟨t, hresult, ?_, hjoin⟩
    rw [compile, hresult]
    rfl
  · intro name hclash
    rw [translated₁.knows.labels, translated₂.knows.labels] at hclash
    exact exists_fault_of_clash translated₁ translated₂ hclash

theorem exists_result_of_labels (filename text : String) (labels : List (String × Location))
    (h : (translateText filename text).result.map (fun t => t.names.labels) = .ok labels) :
    ∃ t, (translateText filename text).result = .ok t ∧ t.names.labels = labels := by
  cases hresult : (translateText filename text).result with
  | error fault =>
    rw [hresult] at h
    cases h
  | ok t =>
    rw [hresult] at h
    exact ⟨t, rfl, Except.ok.inj h⟩

/-- A text with a label `x` before a text that uses the same variable, and before a text with two
labels, the second of which is `x` again. -/
theorem compile_joined_three_texts :
    ∃ t₁ t₂ t₃, (translateText "j" "LET a = 1\nLABEL x").result = .ok t₁ ∧
      (translateText "j" "LET b = 1\nLET a = b\nLABEL y").result = .ok t₂ ∧
      (translateText "j" "LABEL y\nLABEL x").result = .ok t₃ ∧
      (∃ t, (translateText "j" "LET a = 1\nLABEL x\nLET b = 1\nLET a = b\nLABEL y").result =
        .ok t ∧ t.JoinOf t₁ t₂) ∧
      ∃ d, compile "j" "LET a = 1\nLABEL x\nLABEL y\nLABEL x" = .error d ∧
        d.cause = .naming (.duplicateLabel "x" (some ⟨"j", 2, 7⟩)) ∧
        d.location = some ⟨"j", 4, 7⟩ := by
  obtain ⟨t₁, h₁, hlabels₁⟩ := exists_result_of_labels "j" "LET a = 1\nLABEL x"
    [("x", ⟨"j", 2, 7⟩)] (by cbv)
  obtain ⟨t₂, h₂, hlabels₂⟩ := exists_result_of_labels "j" "LET b = 1\nLET a = b\nLABEL y"
    [("y", ⟨"j", 3, 7⟩)] (by cbv)
  obtain ⟨t₃, h₃, hlabels₃⟩ := exists_result_of_labels "j" "LABEL y\nLABEL x"
    [("y", ⟨"j", 1, 7⟩), ("x", ⟨"j", 2, 7⟩)] (by cbv)
  refine ⟨t₁, t₂, t₃, h₁, h₂, h₃, ?_, ?_⟩
  · obtain ⟨t, ht, -, hjoin⟩ := (compile_joined h₁ h₂).1 (by rw [hlabels₁, hlabels₂]; decide)
    exact ⟨t, ht, hjoin⟩
  · obtain ⟨d, original, place, hd, hcause, horiginal, hplace, hmem⟩ :=
      (compile_joined h₁ h₃).2 "x" (by rw [hlabels₁, hlabels₃]; decide)
    rw [hlabels₁] at horiginal
    rw [hlabels₃] at hmem
    obtain rfl := Option.some.inj horiginal
    obtain rfl : place = ⟨"j", 2, 7⟩ := by simpa using hmem
    exact ⟨d, hd, hcause, hplace⟩

end PocketBasic

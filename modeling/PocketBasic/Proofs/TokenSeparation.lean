import PocketBasic.Proofs.CText.Phrases
import PocketBasic.Proofs.ReferenceTranslation

/-!
# What C makes of the expressions of a program

The expressions and conditions of an accepted program stand in its translation as the texts
of their tokens with nothing between them.  C cuts such a text into the tokens of the program
exactly if no sign stands right behind the same sign (`splits_phrase_iff`).
-/

namespace PocketBasic

/-! ## The expressions and conditions of a program -/

/-- A condition with all expressions in it. -/
def Comparison.phrases (c : Comparison) : List (List Token) :=
  c.tokens :: c.first.tokens :: c.rest.operands.map Expression.tokens

/-- The expression of a simple statement, if it has one. -/
def Form.phrases : Form → List (List Token)
  | printValue _ value => [value.tokens]
  | assign _ _ _ value => [value.tokens]
  | _ => []

/-- All expressions and conditions of a program. -/
def Program.phrases : Program → List (List Token)
  | [] => []
  | .simple form _ :: rest => form.phrases ++ phrases rest
  | .block _ head body _ :: rest => head.test.phrases ++ phrases body ++ phrases rest

/-! ## Where they stand -/

theorem Chain.infix_tokensWith {p : Kind → Prop} {α : Type} {f : α → List Token} {a : α}
    {c : Chain p α} (h : a ∈ c.operands) : f a <:+: c.tokensWith f := by
  induction c with
  | last b =>
    obtain rfl := List.mem_singleton.mp h
    exact List.infix_rfl
  | link b operator rest ih =>
    rcases List.mem_cons.mp h with rfl | h
    · exact (List.prefix_append _ _).isInfix
    · refine (ih h).trans ⟨f b ++ [operator.1], [], ?_⟩
      rw [List.append_nil, List.append_assoc, List.singleton_append, Chain.tokensWith]

theorem Comparison.infix_of_mem_phrases {c : Comparison} {phrase : List Token}
    (h : phrase ∈ c.phrases) : phrase <:+: c.tokens := by
  rcases List.mem_cons.mp h with rfl | h
  · exact List.infix_rfl
  · rcases List.mem_cons.mp h with rfl | h
    · exact (List.prefix_append _ _).isInfix
    · obtain ⟨e, he, rfl⟩ := List.mem_map.mp h
      refine (Chain.infix_tokensWith he).trans ⟨c.first.tokens ++ [c.operator.1], [], ?_⟩
      rw [List.append_nil, List.append_assoc, List.singleton_append, Comparison.tokens]

/-- A text that stands in another one. -/
def Within (text whole : String) : Prop := ∃ before behind, whole = before ++ text ++ behind

theorem within_joinTexts {ts us : List Token} (h : ts <:+: us) (before behind : String) :
    Within (joinTexts ts) (before ++ joinTexts us ++ behind) := by
  obtain ⟨front, back, rfl⟩ := h
  refine ⟨before ++ joinTexts front, joinTexts back ++ behind, ?_⟩
  simp only [joinTexts_append, String.append_assoc]

theorem Form.phrases_spec {form : Form} {phrase : List Token} (h : phrase ∈ form.phrases) :
    CText.IsPhrase phrase ∧ phrase <:+: form.tokens ∧
      ∃ line ∈ form.lines, Within (joinTexts phrase) line := by
  cases form with
  | printValue word value =>
    obtain rfl := List.mem_singleton.mp h
    refine ⟨CText.isPhrase_expression value, ⟨[word.1], [], List.append_nil _⟩, _,
      List.mem_singleton_self _, within_joinTexts List.infix_rfl _ _⟩
  | assign word name equals value =>
    obtain rfl := List.mem_singleton.mp h
    refine ⟨CText.isPhrase_expression value, ⟨[word.1, name.1, equals.1], [], List.append_nil _⟩, _,
      List.mem_singleton_self _, within_joinTexts List.infix_rfl _ _⟩
  | printString | label | jump | input => cases h

theorem Comparison.isPhrase_of_mem_phrases {c : Comparison} {phrase : List Token}
    (h : phrase ∈ c.phrases) : CText.IsPhrase phrase := by
  rcases List.mem_cons.mp h with rfl | h
  · exact CText.isPhrase_comparison c
  · rcases List.mem_cons.mp h with rfl | h
    · exact CText.isPhrase_expression c.first
    · obtain ⟨e, -, rfl⟩ := List.mem_map.mp h
      exact CText.isPhrase_expression e

/-- The expressions and conditions of a program are phrases, they stand among its tokens, and
their texts stand in lines of its translation. -/
theorem Program.phrases_spec {p : Program} {phrase : List Token} (h : phrase ∈ p.phrases) :
    CText.IsPhrase phrase ∧ phrase <:+: p.tokens ∧
      ∃ line ∈ p.lines, Within (joinTexts phrase) line := by
  induction p using Program.induction with
  | nil =>
    rw [Program.phrases] at h
    cases h
  | simple form ends rest ih =>
    rw [Program.phrases] at h
    rw [Program.tokens, Program.lines]
    rcases List.mem_append.mp h with hform | hrest
    · obtain ⟨hphrase, htokens, line, hline, hwithin⟩ := Form.phrases_spec hform
      refine ⟨hphrase, htokens.trans ⟨[], ends.tokens ++ rest.tokens, ?_⟩, line,
        List.mem_append_left _ hline, hwithin⟩
      rw [List.nil_append, List.append_assoc]
    · obtain ⟨hphrase, htokens, line, hline, hwithin⟩ := ih hrest
      refine ⟨hphrase, htokens.trans (List.suffix_append _ _).isInfix, line,
        List.mem_append_right _ hline, hwithin⟩
  | block b head body foot rest ihbody ihrest =>
    rw [Program.phrases] at h
    rw [Program.tokens, Program.lines]
    rcases List.mem_append.mp h with h | hrest
    · rcases List.mem_append.mp h with hhead | hbody
      · have htest := Comparison.infix_of_mem_phrases hhead
        refine ⟨Comparison.isPhrase_of_mem_phrases hhead, htest.trans ?_, _, ?_,
          within_joinTexts htest (b.cWord ++ "(") ")\x7b"⟩
        · refine ⟨[head.word.1], head.opener.1 :: head.ends.tokens ++ body.tokens ++ foot.tokens ++
            rest.tokens, ?_⟩
          simp only [BlockHead.tokens, List.append_assoc, List.cons_append, List.nil_append]
        · exact List.mem_append_left _ List.mem_cons_self
      · obtain ⟨hphrase, htokens, line, hline, hwithin⟩ := ihbody hbody
        refine ⟨hphrase, htokens.trans ⟨head.tokens, foot.tokens ++ rest.tokens, ?_⟩, line, ?_,
          hwithin⟩
        · simp only [List.append_assoc]
        · exact List.mem_append_left _ (List.mem_cons_of_mem _ hline)
    · obtain ⟨hphrase, htokens, line, hline, hwithin⟩ := ihrest hrest
      exact ⟨hphrase, htokens.trans (List.suffix_append _ _).isInfix, line,
        List.mem_append_right _ (List.mem_cons_of_mem _ hline), hwithin⟩

/-! ## What C makes of them -/

theorem Source.Tree.mem_tokens {s : Source} (tree : s.Tree) {t : Token}
    (h : t ∈ tree.program.tokens) : t ∈ s.tokenize.tokens := by
  rw [tree.tokens_eq]
  exact List.mem_append_right _ (List.mem_append_left _ h)

/-- The expressions and conditions of an accepted program stand in lines of its translation,
and C cuts their texts into the tokens of the program exactly if no sign in them stands right
behind the same sign. -/
theorem splits_phrase_iff {filename text : String} {c : Compiled}
    (h : compile filename text = .ok c) (tree : (Source.ofString filename text).Tree) :
    c.code = unlines tree.program.listing ∧
      ∀ phrase ∈ tree.program.phrases,
        (∃ line ∈ tree.program.lines, Within (joinTexts phrase) line) ∧
        (CText.Splits (joinTexts phrase).toList (phrase.map fun t => t.text.toList) ↔
          ¬ CText.SignsMeet phrase) := by
  obtain ⟨d, hdraft, rfl⟩ := exists_draft_of_compile h
  refine ⟨(Source.knows_of_draft hdraft tree).2, ?_⟩
  intro phrase hmem
  obtain ⟨hphrase, htokens, hline⟩ := Program.phrases_spec hmem
  refine ⟨hline, CText.splits_iff (fun t ht => ?_) hphrase.chain hphrase.kinds⟩
  exact Source.spells_of_mem_tokens (tree.mem_tokens (htokens.subset ht))

/-! ### Two signs -/

/-- A token on the first line of a source. -/
def signsToken (kind : Kind) (text : String) (column : Nat) : Token :=
  ⟨kind, text, "signs.tt", 1, column⟩

/-- The tree of a source in which a sign stands behind the same sign. -/
def signsTree : (Source.ofString "signs.tt" "PRINT 1 - -1\n").Tree where
  blanks := []
  program := [.simple
    (.printValue ⟨signsToken (.keyword .PRINT) "PRINT" 1, rfl⟩
      (.link (.last ⟨none, .number ⟨signsToken .number "1" 7, rfl⟩⟩)
        ⟨signsToken (.operator .minus) "-" 9, rfl⟩
        (.last (.last ⟨some ⟨signsToken (.operator .minus) "-" 11, rfl⟩,
          .number ⟨signsToken .number "1" 12, rfl⟩⟩))))
    ⟨⟨signsToken .newline "\n" 13, rfl⟩, [⟨⟨.newline, "\n", "signs.tt", 2, 1⟩, rfl⟩]⟩]
  last := ⟨⟨.endOfInput, "", "signs.tt", 3, 1⟩, rfl⟩
  tokens_eq := by cbv

/-- In the translation of that source, C does not find the two signs. -/
theorem splits_phrase_iff_of_two_signs :
    ∃ c phrase, compile "signs.tt" "PRINT 1 - -1\n" = .ok c ∧
      c.code = "#include <stdio.h>\nint main(void)\x7b\nprintf(\"%.2f\\n\", (float)(1--1));\n" ++
        "return 0;\n\x7d\n" ∧
      phrase ∈ signsTree.program.phrases ∧ phrase.map Token.text = ["1", "-", "-", "1"] ∧
      joinTexts phrase = "1--1" ∧
      ¬ CText.Splits (joinTexts phrase).toList (phrase.map fun t => t.text.toList) := by
  have hc : compile "signs.tt" "PRINT 1 - -1\n" = .ok ⟨"signs.tt",
      "#include <stdio.h>\nint main(void)\x7b\nprintf(\"%.2f\\n\", (float)(1--1));\n" ++
        "return 0;\n\x7d\n", 7, [], [], none⟩ := by
    cbv
  refine ⟨_, [signsToken .number "1" 7, signsToken (.operator .minus) "-" 9,
    signsToken (.operator .minus) "-" 11, signsToken .number "1" 12], hc, rfl, ?_, rfl, by decide, ?_⟩
  · rw [signsTree, Program.phrases]
    exact List.mem_cons_self
  · intro hsplits
    refine (((splits_phrase_iff hc signsTree).2 _ ?_).2.mp hsplits) ?_
    · rw [signsTree, Program.phrases]
      exact List.mem_cons_self
    · exact ⟨[signsToken .number "1" 7], _, _, [signsToken .number "1" 12], rfl, .minus, rfl, rfl, rfl⟩

end PocketBasic

import PocketBasic.Proofs.CText.Phrases
import PocketBasic.Proofs.Translation.Sources

/-!
# Tokens of one kind

Keywords and line ends hold a program together, and the other tokens are what it is about.  So to
look for the tokens of another kind is to look into the statements and conditions: nothing is found
in the words of a block or in its line ends, and nothing outside of the program.

Main statement: the tokens of such a kind in a source are those of its tree
(`Source.Tree.filter_tokens`).
-/

namespace PocketBasic

/-- A kind of tokens that a program is about. -/
structure Kind.IsContent (k : Kind) : Prop where
  ne_newline : k ≠ .newline
  ne_endOfInput : k ≠ .endOfInput
  ne_keyword (w : Keyword) : k ≠ .keyword w

variable {k k' : Kind}

theorem filter_leafTokens (h : k ≠ k') (leaves : List (Terminal k')) :
    ((leafTokens leaves).filter fun t => t.kind = k) = [] := by
  refine List.filter_eq_nil_iff.mpr fun t ht hk => ?_
  obtain ⟨leaf, -, rfl⟩ := List.mem_map.mp ht
  exact h ((of_decide_eq_true hk).symm.trans leaf.2)

theorem Terminal.filter_cons (leaf : Terminal k') (h : k ≠ k') (ts : List Token) :
    ((leaf.1 :: ts).filter fun t => t.kind = k) = ts.filter fun t => t.kind = k :=
  List.filter_cons_of_neg (by simpa using leaf.kind_ne h.symm)

namespace Kind.IsContent

variable (h : k.IsContent)
include h

theorem filter_lineEnds (ends : LineEnds) : (ends.tokens.filter fun t => t.kind = k) = [] := by
  rw [LineEnds.tokens, ends.first.filter_cons h.ne_newline, filter_leafTokens h.ne_newline]

theorem filter_head {b : Block} (head : BlockHead b) :
    (head.tokens.filter fun t => t.kind = k) = head.test.tokens.filter fun t => t.kind = k := by
  rw [BlockHead.tokens, head.word.filter_cons (h.ne_keyword _), List.filter_append,
    head.opener.filter_cons (h.ne_keyword _), h.filter_lineEnds, List.append_nil]

theorem filter_foot {b : Block} (foot : BlockEnd b) :
    (foot.tokens.filter fun t => t.kind = k) = [] := by
  rw [BlockEnd.tokens, foot.closer.filter_cons (h.ne_keyword _), h.filter_lineEnds]

end Kind.IsContent

/-- The tokens of a source that its program is about are those of its tree. -/
theorem Source.Tree.filter_tokens {s : Source} (tree : s.Tree) (h : k.IsContent) :
    (s.tokenize.tokens.filter fun t => t.kind = k) =
      tree.program.tokens.filter fun t => t.kind = k := by
  rw [tree.tokens_eq, List.filter_append, List.filter_append, filter_leafTokens h.ne_newline,
    tree.last.filter_cons h.ne_endOfInput, List.filter_nil, List.nil_append, List.append_nil]

/-- No token of an expression or a condition is of a kind that is neither one of operands nor one
of operators. -/
theorem CText.IsPhrase.filter_kind {ts : List Token} (h : CText.IsPhrase ts)
    (hoperand : k.isOperand = false) (hoperator : ∀ o, k ≠ .operator o) :
    (ts.filter fun t => t.kind = k) = [] := by
  refine List.filter_eq_nil_iff.mpr fun t ht hk => ?_
  obtain rfl := of_decide_eq_true hk
  rcases h.kinds t ht with hkind | ⟨o, ho, -⟩
  · rw [hoperand] at hkind
    cases hkind
  · exact hoperator o ho

end PocketBasic

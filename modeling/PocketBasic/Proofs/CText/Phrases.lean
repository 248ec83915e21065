import Mathlib.Data.List.Chain
import PocketBasic.Proofs.CText.Tokens
import PocketBasic.Proofs.Syntax.Reference

/-!
# How C reads expressions and conditions

Expressions and conditions are written with nothing between their tokens.  C finds the same
tokens again unless a sign stands behind the same sign, as in `a - -b`: then C finds one
token where the program has two.  This is so for any list in which operands and operators
stand side by side as they do in expressions (`splits_iff`).
-/

namespace PocketBasic.CText

/-! ## Neighbours in an expression -/

/-- A token that is an operator between operands, or a sign. -/
def IsJoint (t : Token) : Prop := ∃ o : Operator, t.kind = .operator o ∧ isJoint o

theorem IsJoint.not_isOperand {t : Token} (h : IsJoint t) : ¬ t.kind.isOperand := by
  obtain ⟨o, hk, -⟩ := h
  rw [hk]
  exact Bool.false_ne_true

/-- Tokens that may stand side by side in an expression. -/
def Adjacent (t u : Token) : Prop :=
  t.kind.isOperand ∧ IsJoint u ∨ IsJoint t ∧ (u.kind.isOperand ∨ u.kind.isSign)

/-- The same sign twice. -/
def SameSign (t u : Token) : Prop :=
  ∃ sign : Operator, sign.isSign ∧ t.kind = .operator sign ∧ u.kind = .operator sign

/-- A sign stands right behind the same sign. -/
def SignsMeet (ts : List Token) : Prop :=
  ∃ before t u behind, ts = before ++ t :: u :: behind ∧ SameSign t u

theorem not_signsMeet_nil : ¬ SignsMeet [] := by
  rintro ⟨before, t, u, behind, h, -⟩
  cases before <;> cases h

theorem signsMeet_cons_iff {t : Token} {ts : List Token} :
    SignsMeet (t :: ts) ↔ (∃ u ∈ ts.head?, SameSign t u) ∨ SignsMeet ts := by
  constructor
  · rintro ⟨before, t', u, behind, h, hsame⟩
    cases before with
    | nil =>
      obtain ⟨rfl, rfl⟩ := List.cons.inj h
      exact .inl ⟨u, rfl, hsame⟩
    | cons b before =>
      obtain ⟨rfl, rfl⟩ := List.cons.inj h
      exact .inr ⟨before, t', u, behind, rfl, hsame⟩
  · rintro (⟨u, hu, hsame⟩ | ⟨before, t', u, behind, rfl, hsame⟩)
    · obtain ⟨rest, rfl⟩ := List.head?_eq_some_iff.mp hu
      exact ⟨[], t, u, rest, rfl, hsame⟩
    · exact ⟨t :: before, t', u, behind, rfl, hsame⟩

/-! ## The text of a token -/

theorem text_of_operator {t : Token} {o : Operator} (hk : t.kind = .operator o)
    (ht : t.kind.Spells t.text) : t.text = o.text := by
  rw [hk] at ht
  exact ht

/-- The text of an operand begins with a letter or a digit. -/
theorem text_of_operand {t : Token} (hk : t.kind.isOperand) (ht : t.kind.Spells t.text) :
    ∃ c cs, t.text.toList = c :: cs ∧ isIdentifierChar c = true := by
  cases hkind : t.kind with
  | number =>
    rw [hkind] at ht
    obtain ⟨d, tail, hd, hdigit, -⟩ := IsNumber.exists_eq_cons ht
    exact ⟨d, tail, hd, isIdentifierChar_of_isDigit hdigit⟩
  | identifier =>
    rw [hkind] at ht
    obtain ⟨⟨c, rest, hc, halpha, -⟩, -⟩ := ht
    exact ⟨c, rest, hc, isIdentifierChar_of_isAlpha halpha⟩
  | endOfInput | newline | string | keyword | operator =>
    rw [hkind] at hk
    cases hk

theorem exists_sign {k : Kind} (hk : k.isSign) :
    ∃ sign : Operator, k = .operator sign ∧ sign.isSign := by
  cases k with
  | operator sign => exact ⟨sign, rfl, hk⟩
  | endOfInput | newline | number | identifier | string | keyword => cases hk

theorem text_of_sign {sign : Operator} (h : sign.isSign) : ∃ d, sign.text.toList = [d] := by
  cases sign with
  | plus | minus => exact ⟨_, rfl⟩
  | _ => cases h

/-- The text of an operator begins with a character that no operand goes on with. -/
theorem text_of_joint {t : Token} (hk : IsJoint t) (ht : t.kind.Spells t.text) :
    ∃ c cs, t.text.toList = c :: cs ∧ isIdentifierChar c = false ∧ c ≠ '.' := by
  obtain ⟨o, hkind, -⟩ := hk
  rw [text_of_operator hkind ht]
  have hne : o.text.toList ≠ [] := by
    cases o <;> decide
  obtain ⟨c, cs, hcs⟩ := List.exists_cons_of_ne_nil hne
  exact ⟨c, cs, hcs, text_char_of_operator o c (by rw [hcs]; exact List.mem_cons_self)⟩

/-! ## Where the tokens of an expression end -/

variable {t : Token} {ts : List Token}

theorem toList_joinTexts_cons :
    (joinTexts (t :: ts)).toList = t.text.toList ++ (joinTexts ts).toList := by
  rw [joinTexts_cons, String.toList_append]

/-- An operand ends before an operator. -/
theorem longest_operand (hk : t.kind.isOperand) (ht : t.kind.Spells t.text)
    (hts : ∀ u ∈ ts, u.kind.Spells u.text) (hnext : ∀ u ∈ ts.head?, IsJoint u) :
    Longest (t.text.toList ++ (joinTexts ts).toList) t.text.toList (joinTexts ts).toList := by
  have hrest : ∀ c more, (joinTexts ts).toList = c :: more →
      isIdentifierChar c = false ∧ c ≠ '.' := by
    intro c more hc
    cases ts with
    | nil => cases hc
    | cons u us =>
      obtain ⟨d, ds, hd, hchar⟩ := text_of_joint (hnext u rfl) (hts u List.mem_cons_self)
      rw [toList_joinTexts_cons, hd] at hc
      obtain ⟨rfl, -⟩ := List.cons.inj hc
      exact hchar
  cases hkind : t.kind with
  | number =>
    rw [hkind] at ht
    exact longest_number ht hrest
  | identifier =>
    rw [hkind] at ht
    exact longest_word ht.1 fun c more hc => (hrest c more hc).1
  | endOfInput | newline | string | keyword | operator =>
    rw [hkind] at hk
    cases hk

/-- An operator ends before an operand or a sign, unless that is the same sign. -/
theorem longest_joint_iff (hk : IsJoint t) (ht : t.kind.Spells t.text)
    (hts : ∀ u ∈ ts, u.kind.Spells u.text)
    (hnext : ∀ u ∈ ts.head?, u.kind.isOperand ∨ u.kind.isSign) :
    Longest (t.text.toList ++ (joinTexts ts).toList) t.text.toList (joinTexts ts).toList ↔
      ¬ ∃ u ∈ ts.head?, SameSign t u := by
  obtain ⟨o, hkind, ho⟩ := hk
  rw [text_of_operator hkind ht]
  constructor
  · rintro hlongest ⟨u, hu, sign, hsign, htsign, husign⟩
    obtain ⟨us, rfl⟩ := List.head?_eq_some_iff.mp hu
    rw [hkind] at htsign
    obtain rfl := Kind.operator.inj htsign
    rw [toList_joinTexts_cons, text_of_operator husign (hts u List.mem_cons_self)] at hlongest
    exact not_longest_sign hsign _ hlongest
  · intro hnot
    refine longest_operator ho ?_
    intro c more hc
    cases ts with
    | nil => cases hc
    | cons u us =>
      have hu := hts u List.mem_cons_self
      rw [toList_joinTexts_cons] at hc
      rcases hnext u rfl with hoperand | hsign
      · obtain ⟨d, ds, hd, hchar⟩ := text_of_operand hoperand hu
        rw [hd] at hc
        obtain ⟨rfl, -⟩ := List.cons.inj hc
        exact .inl hchar
      · obtain ⟨sign, husign, hsign⟩ := exists_sign hsign
        obtain ⟨d, hd⟩ := text_of_sign hsign
        rw [text_of_operator husign hu, hd] at hc
        obtain ⟨rfl, -⟩ := List.cons.inj hc
        refine .inr ⟨sign, hsign, hd, ?_⟩
        rintro rfl
        exact hnot ⟨u, rfl, o, hsign, hkind, husign⟩

/-- A token ends before one that may stand behind it, unless the two are the same sign. -/
theorem longest_iff (hkind : t.kind.isOperand ∨ IsJoint t) (ht : t.kind.Spells t.text)
    (hts : ∀ u ∈ ts, u.kind.Spells u.text) (hnext : ∀ u ∈ ts.head?, Adjacent t u) :
    Longest (t.text.toList ++ (joinTexts ts).toList) t.text.toList (joinTexts ts).toList ↔
      ¬ ∃ u ∈ ts.head?, SameSign t u := by
  rcases hkind with hoperand | hjoint
  · refine ⟨fun _ => ?_, fun _ => longest_operand hoperand ht hts fun u hu => ?_⟩
    · rintro ⟨u, -, sign, -, hsign, -⟩
      rw [hsign] at hoperand
      cases hoperand
    · rcases hnext u hu with ⟨-, hjoint⟩ | ⟨hjoint, -⟩
      · exact hjoint
      · exact absurd hoperand hjoint.not_isOperand
  · refine longest_joint_iff hjoint ht hts ?_
    intro u hu
    rcases hnext u hu with ⟨hoperand, -⟩ | ⟨-, hu⟩
    · exact absurd hoperand hjoint.not_isOperand
    · exact hu

/-- C finds the operands and operators of a list again exactly if no sign stands right behind
the same sign. -/
theorem splits_iff (hspells : ∀ t ∈ ts, t.kind.Spells t.text) (hchain : ts.IsChain Adjacent)
    (hkinds : ∀ t ∈ ts, t.kind.isOperand ∨ IsJoint t) :
    Splits (joinTexts ts).toList (ts.map fun t => t.text.toList) ↔ ¬ SignsMeet ts := by
  induction ts with
  | nil => exact ⟨fun _ => not_signsMeet_nil, fun _ => .nil⟩
  | cons t ts ih =>
    obtain ⟨hnext, hlater⟩ := List.isChain_cons.mp hchain
    obtain ⟨ht, hts⟩ := List.forall_mem_cons.mp hspells
    obtain ⟨hkind, hkinds⟩ := List.forall_mem_cons.mp hkinds
    rw [List.map_cons, toList_joinTexts_cons, splits_append_iff, longest_iff hkind ht hts hnext,
      ih hts hlater hkinds, signsMeet_cons_iff, not_or]

/-! ## Phrases -/

/-- A list of operands and operators that begins and ends as an expression does. -/
structure IsPhrase (ts : List Token) : Prop where
  nonempty : ts ≠ []
  kinds : ∀ t ∈ ts, t.kind.isOperand ∨ IsJoint t
  chain : ts.IsChain Adjacent
  first : ∀ t ∈ ts.head?, t.kind.isOperand ∨ t.kind.isSign
  last : ∀ t ∈ ts.getLast?, t.kind.isOperand

/-- Phrases are joined by operators. -/
theorem IsPhrase.join {us : List Token} (hts : IsPhrase ts) (ht : IsJoint t) (hus : IsPhrase us) :
    IsPhrase (ts ++ t :: us) where
  nonempty h := hts.nonempty (List.append_eq_nil_iff.mp h).1
  kinds u hu := by
    rcases List.mem_append.mp hu with hu | hu
    · exact hts.kinds u hu
    · rcases List.mem_cons.mp hu with rfl | hu
      · exact .inr ht
      · exact hus.kinds u hu
  chain := by
    refine List.isChain_append.mpr ⟨hts.chain, List.isChain_cons.mpr ⟨?_, hus.chain⟩, ?_⟩
    · intro u hu
      exact .inr ⟨ht, hus.first u hu⟩
    · rintro a ha b hb
      obtain rfl := Option.some.inj hb
      exact .inl ⟨hts.last a ha, ht⟩
  first u hu := by
    rw [List.head?_append_of_ne_nil _ hts.nonempty] at hu
    exact hts.first u hu
  last u hu := by
    rw [List.getLast?_append_cons, List.getLast?_cons_of_ne_nil hus.nonempty] at hu
    exact hus.last u hu

theorem isJoint_of_isSign (h : t.kind.isSign) : IsJoint t := by
  obtain ⟨sign, hk, hsign⟩ := exists_sign h
  refine ⟨sign, hk, ?_⟩
  cases sign with
  | plus | minus => rfl
  | _ => cases hsign

/-- A phrase may have a sign before it. -/
theorem IsPhrase.sign (hts : IsPhrase ts) (ht : t.kind.isSign) : IsPhrase (t :: ts) where
  nonempty := List.cons_ne_nil _ _
  kinds u hu := by
    rcases List.mem_cons.mp hu with rfl | hu
    · exact .inr (isJoint_of_isSign ht)
    · exact hts.kinds u hu
  chain := List.isChain_cons.mpr
    ⟨fun u hu => .inr ⟨isJoint_of_isSign ht, hts.first u hu⟩, hts.chain⟩
  first u hu := by
    obtain rfl := Option.some.inj hu
    exact .inr ht
  last u hu := by
    rw [List.getLast?_cons_of_ne_nil hts.nonempty] at hu
    exact hts.last u hu

theorem isPhrase_operand (ht : t.kind.isOperand) : IsPhrase [t] where
  nonempty := List.cons_ne_nil _ _
  kinds u hu := by
    rw [List.mem_singleton.mp hu]
    exact .inl ht
  chain := .singleton t
  first u hu := by
    obtain rfl := Option.some.inj hu
    exact .inl ht
  last u hu := by
    obtain rfl := Option.some.inj hu
    exact ht

theorem isPhrase_unary (u : Unary) : IsPhrase u.tokens := by
  obtain ⟨sign, operand⟩ := u
  have hoperand : IsPhrase operand.tokens := by
    cases operand with
    | number digits => exact isPhrase_operand (by rw [digits.2]; rfl)
    | name t => exact isPhrase_operand (by rw [t.2]; rfl)
  cases sign with
  | none => exact hoperand
  | some t => exact hoperand.sign t.2

theorem isPhrase_chain {p : Kind → Prop} {α : Type} {f : α → List Token}
    (hitem : ∀ a, IsPhrase (f a)) (hoperator : ∀ t : TokenOf p, IsJoint t.1) (c : Chain p α) :
    IsPhrase (c.tokensWith f) := by
  induction c with
  | last a => exact hitem a
  | link a operator rest ih => exact (hitem a).join (hoperator operator) ih

theorem isJoint_of_isFactor (h : t.kind.isFactor) : IsJoint t := by
  cases hk : t.kind with
  | operator o =>
    refine ⟨o, hk, ?_⟩
    rw [hk] at h
    cases o with
    | times | divide => rfl
    | _ => cases h
  | endOfInput | newline | number | identifier | string | keyword =>
    rw [hk] at h
    cases h

theorem isJoint_of_isComparison (h : t.kind.isComparison) : IsJoint t := by
  cases hk : t.kind with
  | operator o =>
    rw [hk] at h
    exact ⟨o, hk, (congrArg _ h).trans (Bool.or_true _)⟩
  | endOfInput | newline | number | identifier | string | keyword =>
    rw [hk] at h
    cases h

theorem isPhrase_expression (e : Expression) : IsPhrase e.tokens :=
  isPhrase_chain (isPhrase_chain isPhrase_unary fun t => isJoint_of_isFactor t.2)
    (fun t => isJoint_of_isSign t.2) e

theorem isPhrase_comparison (c : Comparison) : IsPhrase c.tokens :=
  (isPhrase_expression c.first).join (isJoint_of_isComparison c.operator.2)
    (isPhrase_chain isPhrase_expression (fun t => isJoint_of_isComparison t.2) c.rest)

end PocketBasic.CText

import PocketBasic.Proofs.CText.Phrases
import PocketBasic.Proofs.Lexing.Writing

/-!
# Expressions are read back

Expressions and conditions are written with nothing between their tokens.  C may find other
tokens in what is written, as in `1--1`, but the language itself finds the same ones: no two of
its signs make another token, an operand ends before an operator, and no equals sign stands
behind an operator.  So the text of an expression is read as its tokens
(`CText.IsPhrase.wordsOf_joinTexts`).
-/

namespace PocketBasic

/-- The words that the language reads in a text, without the line end and the end of the input
that every text has. -/
def wordsOf (text : String) : List (Kind × String) :=
  ((Source.ofString Source.defaultName text).tokenize.tokens.map Token.word).rdrop 2

/-- A text that has no blank, no quote and no line end. -/
def IsPlain (text : String) : Prop := ∀ c ∈ text.toList, c ≠ ' ' ∧ c ≠ '"' ∧ c ≠ '\n'

theorem IsPlain.oneLine {text : String} (h : IsPlain text) : OneLine text :=
  fun hmem => (h '\n' hmem).2.2 rfl

theorem oneLine_of_isWord {word : String} (h : IsWord word.toList) : OneLine word := by
  obtain ⟨c, rest, hword, hc, hrest⟩ := h
  intro hmem
  rcases List.mem_cons.mp (hword ▸ hmem) with rfl | hmem
  · cases hc
  · cases hrest _ hmem

namespace CText

variable {t : Token} {ts : List Token} {behind : List Char}

/-! ## The characters of an expression -/

theorem isPlain_of_operand (hk : t.kind.isOperand) (ht : t.kind.Spells t.text) :
    IsPlain t.text := by
  have hplain : ∀ {c : Char}, c.isAlphanum ∨ c = '.' → c ≠ ' ' ∧ c ≠ '"' ∧ c ≠ '\n' := by
    rintro c hc
    refine ⟨?_, ?_, ?_⟩
    all_goals
      rintro rfl
      revert hc
      decide
  have halphanum {c : Char} (h : c.isAlpha ∨ c.isDigit) : c.isAlphanum := by
    rwa [Char.isAlphanum, Bool.or_eq_true]
  intro c hc
  cases hkind : t.kind with
  | number =>
    rw [hkind] at ht
    obtain ⟨d, tail, hd, hdigit, htail⟩ := IsNumber.exists_eq_cons ht
    rcases List.mem_cons.mp (hd ▸ hc) with rfl | hmem
    · exact hplain (.inl (halphanum (.inr hdigit)))
    · exact hplain ((htail c hmem).imp (fun h => halphanum (.inr h)) id)
  | identifier =>
    rw [hkind] at ht
    obtain ⟨⟨d, tail, hd, halpha, htail⟩, -⟩ := ht
    rcases List.mem_cons.mp (hd ▸ hc) with rfl | hmem
    · exact hplain (.inl (halphanum (.inl halpha)))
    · exact hplain (.inl (htail c hmem))
  | endOfInput | newline | string | keyword | operator =>
    rw [hkind] at hk
    cases hk

theorem isPlain_of_joint (hk : IsJoint t) (ht : t.kind.Spells t.text) : IsPlain t.text := by
  obtain ⟨o, hkind, -⟩ := hk
  have hall : (o.text.toList.all fun c => c ∉ [' ', '"', '\n']) = true := by
    cases o <;> decide
  rw [text_of_operator hkind ht]
  intro c hc
  have hchar := List.all_eq_true.mp hall c hc
  simpa using hchar

/-- The text of a phrase is plain. -/
theorem IsPhrase.isPlain (h : IsPhrase ts) (hspells : ∀ t ∈ ts, t.kind.Spells t.text) :
    IsPlain (joinTexts ts) := by
  have hplain : ∀ t ∈ ts, IsPlain t.text := fun t ht =>
    (h.kinds t ht).elim (isPlain_of_operand · (hspells t ht)) (isPlain_of_joint · (hspells t ht))
  clear h hspells
  induction ts with
  | nil => exact fun c hc => absurd hc List.not_mem_nil
  | cons t ts ih =>
    intro c hc
    rw [toList_joinTexts_cons] at hc
    rcases List.mem_append.mp hc with hc | hc
    · exact hplain t List.mem_cons_self c hc
    · exact ih (fun u hu => hplain u (List.mem_cons_of_mem _ hu)) c hc

/-! ## Reading an expression -/

/-- An operand is read before an operator and before the end of the line. -/
theorem readAs_operand (hk : t.kind.isOperand) (ht : t.kind.Spells t.text)
    (h : ∀ c ∈ behind.head?, isIdentifierChar c = false ∧ c ≠ '.') :
    Lexeme.ReadAs t.text.toList behind (.ok t.word) := by
  have hletter : Lexeme.NoneAhead Char.isAlphanum behind := by
    intro c hc
    have hchar := (h c hc).1
    rw [isIdentifierChar, Bool.or_eq_false_iff] at hchar
    exact hchar.1
  have hdigit : Lexeme.NoneAhead Char.isDigit behind := by
    intro c hc
    have hchar := hletter c hc
    rw [Char.isAlphanum, Bool.or_eq_false_iff] at hchar
    exact hchar.2
  have hpoint : Lexeme.NoneAhead (· = '.') behind := fun c hc => decide_eq_false (h c hc).2
  obtain ⟨kind, text, place⟩ := t
  obtain ⟨cs, rfl⟩ := exists_ofList_eq text
  show Lexeme.ReadAs (String.ofList cs).toList behind (.ok (kind, String.ofList cs))
  cases kind with
  | number =>
    have hnumber : IsNumber (String.ofList cs).toList := ht
    rw [String.toList_ofList] at hnumber ⊢
    cases hnumber with
    | whole h => exact .integer h hdigit hpoint
    | fraction h h' => exact .fraction h h' hdigit
  | identifier =>
    obtain ⟨hword, hkeyword⟩ : IsWord (String.ofList cs).toList ∧ _ := ht
    rw [String.toList_ofList] at hword ⊢
    exact .identifier hword hkeyword hletter
  | endOfInput | newline | string | keyword | operator => cases hk

/-- An operator is read unless an equals sign stands behind it. -/
theorem readAs_joint (hk : IsJoint t) (ht : t.kind.Spells t.text)
    (h : ∀ c ∈ behind.head?, c ≠ '=') : Lexeme.ReadAs t.text.toList behind (.ok t.word) := by
  obtain ⟨o, hkind, -⟩ := hk
  rw [Token.word, text_of_operator hkind ht, hkind]
  exact .operator o fun _ c hc => decide_eq_false (h c hc)

/-- What stands on a line behind an operand begins with a character that no operand goes on
with. -/
theorem head_behind_operand (hts : ∀ u ∈ ts, u.kind.Spells u.text)
    (hnext : ∀ u ∈ ts.head?, IsJoint u) :
    ∀ c ∈ ((joinTexts ts).toList ++ ['\n']).head?, isIdentifierChar c = false ∧ c ≠ '.' := by
  intro c hc
  cases ts with
  | nil =>
    obtain rfl := Option.some.inj hc
    exact ⟨rfl, by decide⟩
  | cons u us =>
    obtain ⟨d, ds, hd, hchar⟩ := text_of_joint (hnext u rfl) (hts u List.mem_cons_self)
    rw [toList_joinTexts_cons, hd] at hc
    obtain rfl := Option.some.inj hc
    exact hchar

/-- What stands on a line behind an operator does not begin with an equals sign. -/
theorem head_behind_joint (hts : ∀ u ∈ ts, u.kind.Spells u.text)
    (hnext : ∀ u ∈ ts.head?, u.kind.isOperand ∨ u.kind.isSign) :
    ∀ c ∈ ((joinTexts ts).toList ++ ['\n']).head?, c ≠ '=' := by
  intro c hc
  cases ts with
  | nil =>
    obtain rfl := Option.some.inj hc
    decide
  | cons u us =>
    have hu := hts u List.mem_cons_self
    rw [toList_joinTexts_cons] at hc
    rcases hnext u rfl with hoperand | hsign
    · obtain ⟨d, ds, hd, hchar⟩ := text_of_operand hoperand hu
      rw [hd] at hc
      obtain rfl := Option.some.inj hc
      rintro rfl
      cases hchar
    · obtain ⟨sign, husign, hsign⟩ := exists_sign hsign
      rw [text_of_operator husign hu] at hc
      cases sign with
      | plus | minus =>
        obtain rfl := Option.some.inj hc
        decide
      | _ => cases hsign

/-- Operands and operators side by side, on a line of their own, are cut into segments that are
read as they are. -/
theorem exists_cutInto_joinTexts (hspells : ∀ t ∈ ts, t.kind.Spells t.text)
    (hchain : ts.IsChain Adjacent) (hkinds : ∀ t ∈ ts, t.kind.isOperand ∨ IsJoint t) :
    ∃ gs, CutInto ((joinTexts ts).toList ++ ['\n']) gs ∧
      gs.map Segment.outcome = (ts.map Token.word ++ [(Kind.newline, "\n")]).map .ok := by
  induction ts with
  | nil =>
    let g : Segment := ⟨[], [], ['\n'], .ok (.newline, "\n"), List.forall_mem_nil _, .inl rfl⟩
    exact ⟨[g], .cons (g := g) (Lexeme.ReadAs.newline []) .nil, rfl⟩
  | cons t ts ih =>
    obtain ⟨hnext, hlater⟩ := List.isChain_cons.mp hchain
    have ht := hspells t List.mem_cons_self
    have hts : ∀ u ∈ ts, u.kind.Spells u.text := fun u hu => hspells u (List.mem_cons_of_mem _ hu)
    have hread : Lexeme.ReadAs t.text.toList ((joinTexts ts).toList ++ ['\n']) (.ok t.word) := by
      rcases hkinds t List.mem_cons_self with hoperand | hjoint
      · refine readAs_operand hoperand ht (head_behind_operand hts fun u hu => ?_)
        exact (hnext u hu).elim And.right fun h => absurd hoperand h.1.not_isOperand
      · refine readAs_joint hjoint ht (head_behind_joint hts fun u hu => ?_)
        exact (hnext u hu).elim (fun h => absurd h.1 hjoint.not_isOperand) And.right
    obtain ⟨gs, hgs, houtcomes⟩ := ih hts hlater fun u hu => hkinds u (List.mem_cons_of_mem _ hu)
    let g : Segment := ⟨[], [], t.text.toList, .ok t.word, List.forall_mem_nil _, .inl rfl⟩
    refine ⟨g :: gs, ?_, ?_⟩
    · rw [toList_joinTexts_cons, List.append_assoc]
      exact .cons (g := g) hread hgs
    · rw [List.map_cons, houtcomes]
      rfl

/-- The text of a phrase is read as its tokens. -/
theorem IsPhrase.wordsOf_joinTexts (h : IsPhrase ts) (hspells : ∀ t ∈ ts, t.kind.Spells t.text) :
    wordsOf (joinTexts ts) = ts.map Token.word := by
  obtain ⟨gs, hgs, houtcomes⟩ := exists_cutInto_joinTexts hspells h.chain h.kinds
  rw [wordsOf, (Source.tokenize_of_cutInto Source.defaultName hgs houtcomes).2, List.rdrop,
    List.length_append, List.length_cons, List.length_singleton, Nat.add_sub_cancel,
    List.take_left]

end CText
end PocketBasic

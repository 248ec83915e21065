import Mathlib.Data.List.TakeWhile
import PocketBasic.Source

/-!
# How tokens are spelled

Every kind of token has its spellings: a keyword, an operator and a line end have one,
a number is a run of digits with a fraction or without, an identifier is a letter
with letters and digits behind it that is no keyword, and a string may hold whatever
`Lexeme.isStringChar` allows.  `Kind.Spells` says which texts are spellings of a kind.

Main statement: every token that a source hands out is spelled as its kind is
(`Source.spells_of_next`).
-/

namespace PocketBasic

/-! ## Letters and digits -/

theorem isDigit_eq_false_of_isAlpha {c : Char} (h : c.isAlpha) : c.isDigit = false := by
  unfold Char.isAlpha Char.isUpper Char.isLower at h
  unfold Char.isDigit
  simp only [Bool.or_eq_true, Bool.and_eq_true, decide_eq_true_eq, Bool.and_eq_false_iff,
    decide_eq_false_iff_not] at h ⊢
  have hA : 'A'.val.toNat = 65 := rfl
  have ha : 'a'.val.toNat = 97 := rfl
  have h9 : '9'.val.toNat = 57 := rfl
  rcases h with ⟨h, -⟩ | ⟨h, -⟩
  all_goals
    right
    rw [ge_iff_le, UInt32.le_iff_toNat_le] at h
    rw [UInt32.le_iff_toNat_le]
    omega

theorem isAlpha_eq_false_of_isDigit {c : Char} (h : c.isDigit) : c.isAlpha = false := by
  cases halpha : c.isAlpha with
  | false => rfl
  | true => rw [isDigit_eq_false_of_isAlpha halpha] at h; cases h

/-! ## Numbers and words -/

/-- Digits, and at least one of them. -/
def IsDigits (cs : List Char) : Prop := cs ≠ [] ∧ ∀ c ∈ cs, c.isDigit

/-- A number: digits, or digits with a point and digits behind them. -/
inductive IsNumber : List Char → Prop where
  | whole {cs : List Char} (h : IsDigits cs) : IsNumber cs
  | fraction {cs ds : List Char} (h : IsDigits cs) (h' : IsDigits ds) : IsNumber (cs ++ '.' :: ds)

/-- A word: a letter, and then letters and digits. -/
def IsWord (cs : List Char) : Prop :=
  ∃ c rest, cs = c :: rest ∧ c.isAlpha ∧ ∀ d ∈ rest, d.isAlphanum

/-- A number is a digit with digits and points behind it. -/
theorem IsNumber.exists_eq_cons {number : List Char} (h : IsNumber number) :
    ∃ d tail, number = d :: tail ∧ d.isDigit ∧ ∀ c ∈ tail, c.isDigit ∨ c = '.' := by
  cases h with
  | whole h =>
    obtain ⟨hne, hdigits⟩ := h
    obtain ⟨d, tail, rfl⟩ := List.exists_cons_of_ne_nil hne
    exact ⟨d, tail, rfl, hdigits d List.mem_cons_self,
      fun c hc => .inl (hdigits c (List.mem_cons_of_mem _ hc))⟩
  | @fraction whole ds h h' =>
    obtain ⟨hne, hdigits⟩ := h
    obtain ⟨d, tail, rfl⟩ := List.exists_cons_of_ne_nil hne
    refine ⟨d, tail ++ '.' :: ds, rfl, hdigits d List.mem_cons_self, ?_⟩
    intro c hc
    rcases List.mem_append.mp hc with htail | hfraction
    · exact .inl (hdigits c (List.mem_cons_of_mem _ htail))
    · rcases List.mem_cons.mp hfraction with rfl | hds
      · exact .inr rfl
      · exact .inl (h'.2 c hds)

/-- The texts that tokens of a kind have. -/
def Kind.Spells : Kind → String → Prop
  | .endOfInput, text => text = ""
  | .newline, text => text = "\n"
  | .number, text => IsNumber text.toList
  | .identifier, text => IsWord text.toList ∧ ∀ k : Keyword, k.text ≠ text
  | .string, text => ∀ c ∈ text.toList, Lexeme.isStringChar c
  | .keyword k, text => text = k.text
  | .operator o, text => text = o.text

namespace Lexeme

theorem isDigits_takeWhile {c : Char} (h : c.isDigit) (rest : List Char) :
    IsDigits ((c :: rest).takeWhile Char.isDigit) := by
  refine ⟨by simp [h], ?_⟩
  intro d hd
  exact List.mem_takeWhile_imp hd

/-- A word is spelled as a keyword or as an identifier. -/
theorem spells_kindOfWord {word : String} (h : IsWord word.toList) :
    (kindOfWord word).Spells word := by
  unfold kindOfWord
  split
  · rename_i k hk
    have hk' := List.find?_some hk
    exact (of_decide_eq_true hk').symm
  · rename_i hnone
    refine ⟨h, ?_⟩
    intro k hk
    have hno := List.find?_eq_none.mp hnone k (Keyword.mem_all k)
    simp [hk] at hno

theorem spells_readWord {c : Char} (hc : c.isAlpha) (rest : List Char) {k : Kind} {text : String}
    (h : (readWord (c :: rest)).outcome = .ok (k, text)) : k.Spells text := by
  obtain ⟨rfl, rfl⟩ := Prod.mk.inj (Except.ok.inj h)
  refine spells_kindOfWord ⟨c, rest.takeWhile Char.isAlphanum, ?_, hc, fun d hd => ?_⟩
  · have hcn : c.isAlphanum = true := by simp [Char.isAlphanum, hc]
    rw [String.toList_ofList, List.takeWhile_cons_of_pos hcn]
  · exact List.mem_takeWhile_imp hd

theorem spells_readNumber {c : Char} (hc : c.isDigit) (rest : List Char) {k : Kind}
    {text : String} (h : (readNumber (c :: rest)).outcome = .ok (k, text)) : k.Spells text := by
  have hwhole := isDigits_takeWhile hc rest
  unfold readNumber at h
  dsimp only at h
  split at h
  · rename_i more _
    split at h
    · cases h
    · rename_i hne
      obtain ⟨rfl, rfl⟩ := Prod.mk.inj (Except.ok.inj h)
      show IsNumber _
      rw [String.toList_ofList]
      exact .fraction hwhole ⟨hne, fun d hd => List.mem_takeWhile_imp hd⟩
  · obtain ⟨rfl, rfl⟩ := Prod.mk.inj (Except.ok.inj h)
    show IsNumber _
    rw [String.toList_ofList]
    exact .whole hwhole

theorem spells_readString (text : List Char) {k : Kind} {body : String}
    (h : (readString text).outcome = .ok (k, body)) : k.Spells body := by
  unfold readString at h
  dsimp only at h
  split at h
  · obtain ⟨rfl, rfl⟩ := Prod.mk.inj (Except.ok.inj h)
    intro c hc
    rw [String.toList_ofList] at hc
    exact List.mem_takeWhile_imp hc
  · cases h
  · cases h
  · cases h

theorem spells_readOperator (c : Char) (rest : List Char) {k : Kind} {text : String}
    (h : (readOperator c rest).outcome = .ok (k, text)) : k.Spells text := by
  unfold readOperator at h
  split at h
  · obtain ⟨rfl, rfl⟩ := Prod.mk.inj (Except.ok.inj h)
    exact rfl
  · split at h <;> cases h

/-- What is read as a token is spelled as its kind is. -/
theorem spells_read {c : Char} {rest : List Char} {k : Kind} {text : String}
    (h : (read c rest).outcome = .ok (k, text)) : k.Spells text := by
  unfold read at h
  split at h
  · obtain ⟨rfl, rfl⟩ := Prod.mk.inj (Except.ok.inj h)
    exact rfl
  split at h
  · rename_i hc
    exact spells_readWord hc rest h
  split at h
  · rename_i hc
    exact spells_readNumber hc rest h
  split at h
  · exact spells_readString rest h
  · exact spells_readOperator c rest h

/-- No lexeme is read as the end of the input. -/
theorem kind_ne_endOfInput {c : Char} {rest : List Char} {k : Kind} {text : String}
    (h : (read c rest).outcome = .ok (k, text)) : k ≠ .endOfInput := by
  rintro rfl
  unfold read readWord kindOfWord readNumber readString readOperator at h
  dsimp only at h
  split at h
  · cases h
  split at h
  · split at h <;> cases h
  split at h
  · split at h
    · split at h <;> cases h
    · cases h
  split at h
  · split at h <;> cases h
  · split at h
    · cases h
    · split at h <;> cases h

end Lexeme

/-- Every token that a source hands out is spelled as its kind is. -/
theorem Source.spells_of_next {s : Source} {t : Token} (h : s.next.1 = .ok t) :
    t.kind.Spells t.text := by
  unfold Source.next at h
  dsimp only at h
  split at h
  · obtain rfl := Except.ok.inj h
    exact rfl
  · split at h
    · rename_i hread
      obtain rfl := Except.ok.inj h
      exact Lexeme.spells_read hread
    · cases h

end PocketBasic

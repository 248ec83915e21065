import PocketBasic.Proofs.Diagnostics.Pointing
import PocketBasic.Proofs.ReferenceTranslation

/-!
# The characters of a listing

All that a translation writes is fixed text and the texts of tokens.  Fixed text is ASCII, and so
are the texts of tokens (`isAscii_of_spells`), those of strings excepted.  So a property of
characters that ASCII characters have, and those of the strings in a source, is a property of all
characters that are ever written, whether the translation comes to its end or not.

What is kept from one moment of a token to the next is `Draft.MadeOf`.  It speaks of the header,
of the body and of the variable that an assignment is being read for, because that variable is
written later than its token is read.

Main statements: a run writes nothing else (`Translation.MadeOf.run`), and each character of the
code of a text is ASCII or stands in a string of the text (`isAscii_or_quotesChar`).
-/

namespace PocketBasic

/-! ## Texts -/

/-- An ASCII character. -/
def IsAscii (c : Char) : Prop := c.toNat < 128

instance : DecidablePred IsAscii := fun c => Nat.decLt c.toNat 128

/-- A text whose characters all have a property. -/
def AllChars (P : Char → Prop) (text : String) : Prop := ∀ c ∈ text.toList, P c

-- not the instance that is found for the definition, which tries all characters there are
instance {P : Char → Prop} [DecidablePred P] (text : String) : Decidable (AllChars P text) :=
  List.decidableBAll P text.toList

@[simp] theorem allChars_append {P : Char → Prop} {text text' : String} :
    AllChars P (text ++ text') ↔ AllChars P text ∧ AllChars P text' := by
  simp only [AllChars, String.toList_append, List.mem_append, or_imp, forall_and]

theorem AllChars.imp {P Q : Char → Prop} {text : String} (h : AllChars P text)
    (hPQ : ∀ c, P c → Q c) : AllChars Q text := fun c hc => hPQ c (h c hc)

theorem isAscii_of_isAlphanum {c : Char} (h : c.isAlphanum) : IsAscii c := by
  simp only [Char.isAlphanum, Char.isAlpha, Char.isUpper, Char.isLower, Char.isDigit,
    Bool.or_eq_true, Bool.and_eq_true, decide_eq_true_eq] at h
  show c.val.toNat < 128
  have hZ : 'Z'.val.toNat = 90 := rfl
  have hz : 'z'.val.toNat = 122 := rfl
  have h9 : '9'.val.toNat = 57 := rfl
  rcases h with (⟨-, h⟩ | ⟨-, h⟩) | ⟨-, h⟩
  all_goals
    rw [UInt32.le_iff_toNat_le] at h
    omega

theorem isAscii_of_isDigit {c : Char} (h : c.isDigit) : IsAscii c :=
  isAscii_of_isAlphanum (by rw [Char.isAlphanum, h, Bool.or_true])

/-- The tokens whose texts may hold other characters than ASCII are the strings. -/
theorem isAscii_of_spells {k : Kind} {text : String} (h : k.Spells text) (hk : k ≠ .string) :
    AllChars IsAscii text := by
  cases k with
  | endOfInput =>
    rw [show text = "" from h]
    decide
  | newline =>
    rw [show text = "\n" from h]
    decide
  | number =>
    obtain ⟨d, tail, htext, hd, htail⟩ := IsNumber.exists_eq_cons h
    intro c hc
    rw [htext] at hc
    rcases List.mem_cons.mp hc with rfl | hc
    · exact isAscii_of_isDigit hd
    · rcases htail c hc with hdigit | rfl
      · exact isAscii_of_isDigit hdigit
      · decide
  | identifier =>
    obtain ⟨⟨d, tail, htext, hd, htail⟩, -⟩ := h
    intro c hc
    rw [htext] at hc
    rcases List.mem_cons.mp hc with rfl | hc
    · exact isAscii_of_isAlphanum (by rw [Char.isAlphanum, hd, Bool.true_or])
    · exact isAscii_of_isAlphanum (htail c hc)
  | string => exact absurd rfl hk
  | keyword w =>
    rw [show text = w.text from h]
    cases w
    all_goals decide
  | operator o =>
    rw [show text = o.text from h]
    cases o
    all_goals decide

/-! ## Drafts -/

variable {P : Char → Prop}

/-- A draft in which nothing but certain characters is written or still to be written. -/
structure Draft.MadeOf (P : Char → Prop) (d : Draft) : Prop where
  header : AllChars P d.listing.header
  body : AllChars P d.listing.body
  target : AllChars P d.target

namespace Draft.MadeOf

variable {d e : Draft} {text : String} {t : Token} {next : Control}

theorem emit (h : d.MadeOf P) (htext : AllChars P text) : (d.emit text).MadeOf P :=
  ⟨h.header, allChars_append.mpr ⟨h.body, htext⟩, h.target⟩

theorem declareLabel {place : Location} (h : d.MadeOf P)
    (he : d.declareLabel text place = .ok e) : e.MadeOf P := by
  unfold Draft.declareLabel at he
  split at he
  · cases he
  · obtain rfl := Except.ok.inj he
    exact ⟨h.header, h.body, h.target⟩

variable (hascii : ∀ c, IsAscii c → P c)

include hascii

theorem ofAscii (h : AllChars IsAscii text) : AllChars P text := h.imp hascii

theorem emitLine (h : d.MadeOf P) (htext : AllChars P text) :
    (d.emitLine text).MadeOf P :=
  h.emit (allChars_append.mpr ⟨htext, ofAscii hascii (by decide)⟩)

theorem declareVariable (h : d.MadeOf P) (htext : AllChars P text) :
    (d.declareVariable text).MadeOf P := by
  unfold Draft.declareVariable
  split
  · exact h
  · have hline : AllChars P (declarationLine text ++ "\n") := by
      simp only [declarationLine, allChars_append]
      exact ⟨⟨⟨ofAscii hascii (by decide), htext⟩, ofAscii hascii (by decide)⟩,
        ofAscii hascii (by decide)⟩
    exact ⟨allChars_append.mpr ⟨h.header, hline⟩, h.body, h.target⟩

theorem settle (h : d.MadeOf P) (k : Kind) : (d.settle k).MadeOf P := by
  have hclose (place place' : Place) : (d.close place place').MadeOf P := by
    unfold close
    split
    · exact h.emitLine hascii (ofAscii hascii (by decide))
    · exact h.emit (ofAscii hascii (by decide))
    · exact h.emitLine hascii (ofAscii hascii (by decide))
    · have hsemicolon : AllChars P ";" := ofAscii hascii (by decide)
      have hdeclared := (h.emitLine hascii hsemicolon).declareVariable hascii h.target
      have hempty : AllChars P "" := ofAscii hascii (by decide)
      exact ⟨hdeclared.header, hdeclared.body, hempty⟩
    · exact h
  have hclosed := hclose d.control.place (d.control.place.settle k)
  exact ⟨hclosed.header, hclosed.body, hclosed.target⟩

theorem write (h : d.MadeOf P) (ht : AllChars P t.text) : (d.write t).MadeOf P := by
  unfold Draft.write
  split
  · exact h.emit ht
  · exact h.emit ht
  · exact h.emit ht
  · refine h.emitLine hascii ?_
    simp only [allChars_append]
    exact ⟨⟨ofAscii hascii (by decide), ht⟩, ofAscii hascii (by decide)⟩
  · exact h

theorem emitInput (h : d.MadeOf P) (htext : AllChars P text) :
    (d.emitInput text).MadeOf P := by
  have hread : AllChars P ("if(0 == scanf(\"%f\", &" ++ text ++ ")) \x7b") := by
    simp only [allChars_append]
    exact ⟨⟨ofAscii hascii (by decide), htext⟩, ofAscii hascii (by decide)⟩
  have hzero : AllChars P (text ++ " = 0;") :=
    allChars_append.mpr ⟨htext, ofAscii hascii (by decide)⟩
  exact (((h.emitLine hascii hread).emitLine hascii hzero).emitLine hascii
    (ofAscii hascii (by decide))).emitLine hascii (ofAscii hascii (by decide))

theorem finish (h : d.MadeOf P) (ht : AllChars P t.text)
    (he : d.finish t next = .ok e) : e.MadeOf P := by
  have hnext : Draft.MadeOf P { d with control := next } := ⟨h.header, h.body, h.target⟩
  unfold Draft.finish at he
  dsimp only at he
  split at he
  -- the first token of a statement, or the word that ends a block
  case h_1 =>
    split at he <;> obtain rfl := Except.ok.inj he
    · exact hnext.emit (ofAscii hascii (by decide))
    · exact hnext.emit (ofAscii hascii (by decide))
    · exact hnext.emitLine hascii (ofAscii hascii (by decide))
    · exact hnext.emitLine hascii (ofAscii hascii (by decide))
    · exact hnext
  case h_2 =>
    split at he
    · cases he
    · rename_i declared hdeclared
      obtain rfl := Except.ok.inj he
      exact (hnext.declareLabel hdeclared).emitLine hascii
        (allChars_append.mpr ⟨ht, ofAscii hascii (by decide)⟩)
  case h_3 =>
    obtain rfl := Except.ok.inj he
    have hrecorded : (recordJump { d with control := next } t.text t.location).MadeOf P :=
      ⟨h.header, h.body, h.target⟩
    refine hrecorded.emitLine hascii ?_
    simp only [allChars_append]
    exact ⟨⟨ofAscii hascii (by decide), ht⟩, ofAscii hascii (by decide)⟩
  case h_4 =>
    obtain rfl := Except.ok.inj he
    exact ⟨h.header, h.body, ht⟩
  case h_5 =>
    obtain rfl := Except.ok.inj he
    exact hnext.emit (allChars_append.mpr ⟨h.target, ofAscii hascii (by decide)⟩)
  case h_6 =>
    obtain rfl := Except.ok.inj he
    exact (hnext.declareVariable hascii ht).emitInput hascii ht
  case h_7 =>
    obtain rfl := Except.ok.inj he
    exact hnext

/-- A draft at the start of a program holds the opening lines. -/
theorem start (names : Names) : (Draft.start names .empty).MadeOf P :=
  let opened : Listing := (Listing.empty.headerLine "#include <stdio.h>").headerLine
    "int main(void)\x7b"
  have hheader : AllChars IsAscii opened.header := by decide
  have hempty : AllChars IsAscii "" := by decide
  ⟨ofAscii hascii hheader, ofAscii hascii hempty, ofAscii hascii hempty⟩

theorem conclude (h : d.MadeOf P) (he : d.conclude = .ok e) : e.MadeOf P := by
  unfold Draft.conclude at he
  split at he
  · cases he
  · obtain rfl := Except.ok.inj he
    exact (h.emitLine hascii (ofAscii hascii (by decide))).emitLine hascii
      (ofAscii hascii (by decide))

end Draft.MadeOf

/-! ## Translations -/

/-- A source that hands out tokens of certain characters only. -/
def Source.MadeOf (P : Char → Prop) (s : Source) : Prop :=
  ∀ n t, s.answer n = .ok t → AllChars P t.text

theorem Source.MadeOf.after {s : Source} (h : s.MadeOf P) (m : ℕ) : (s.after m).MadeOf P := by
  intro n t ht
  rw [Source.answer_after] at ht
  exact h (m + n) t ht

/-- A translation that has written certain characters only and that will meet no others. -/
structure Translation.MadeOf (P : Char → Prop) (t : Translation) : Prop where
  draft : t.toDraft.MadeOf P
  current : AllChars P t.current.text
  upcoming : AllChars P t.upcoming.text
  source : t.source.MadeOf P

namespace Translation.MadeOf

variable {t : Translation}

theorem withDraft (h : t.MadeOf P) {d : Draft} (hd : d.MadeOf P) : (t.withDraft d).MadeOf P :=
  ⟨hd, h.current, h.upcoming, h.source⟩

theorem fetch (h : t.MadeOf P) : t.fetch.2.MadeOf P := by
  have hsource : t.source.next.2.MadeOf P := h.source.after 1
  have hfirst := h.source 0
  rw [Source.answer, Source.after] at hfirst
  unfold Translation.fetch
  split
  · rename_i token source hnext
    rw [hnext] at hsource hfirst
    exact ⟨h.draft, h.upcoming, hfirst token rfl, hsource⟩
  · rename_i fault source hnext
    rw [hnext] at hsource
    exact ⟨h.draft, h.upcoming, h.upcoming, hsource⟩

variable (hascii : ∀ c, IsAscii c → P c)

include hascii

/-- A translation starts with the first two tokens of its source. -/
theorem start {s source : Source} {r : Translator} (h : s.MadeOf P)
    (hr : Translator.start s = (.ok r, source)) :
    (Translation.start r source .empty).MadeOf P := by
  rcases Translator.start_cases s with
    ⟨d, n, herror⟩ | ⟨current, upcoming, hok, hcurrent, hupcoming⟩
  · rw [hr] at herror
    cases herror
  · rw [hr] at hok
    cases hok
    exact ⟨.start hascii _, h 0 _ hcurrent, h 1 _ hupcoming, h.after 2⟩

theorem step (h : t.MadeOf P) : t.step.reached.MadeOf P := by
  have hsettled : t.settled.MadeOf P := h.draft.settle hascii t.current.kind
  have hwritten : (t.settled.write t.current).MadeOf P := hsettled.write hascii h.current
  have hfetched : t.fetched.MadeOf P := (h.withDraft hwritten).fetch
  have hreached := t.reached_step
  generalize t.step.reached = u at hreached ⊢
  cases hreached with
  | settled => exact h.withDraft hsettled
  | concluded hd => exact h.withDraft (hsettled.conclude hascii hd)
  | fetched => exact hfetched
  | finished hd => exact hfetched.withDraft (hwritten.finish hascii h.current hd)

/-- However a run ends, it has written no other characters. -/
theorem run (h : t.MadeOf P) : t.run.2.MadeOf P :=
  run_preserves (P := fun t => t.MadeOf P) (fun _ ht => ht.step hascii) h

end Translation.MadeOf

/-! ## The code of a text -/

/-- All that a source without faults hands out are the tokens that are read from it at once. -/
theorem Source.mem_tokens_of_answer {s : Source} (hclean : s.tokenize.failure = none) {n : Nat}
    {t : Token} (h : s.answer n = .ok t) : t ∈ s.tokenize.tokens := by
  obtain ⟨front, last, htokens, -, -, hrepeat⟩ := answer_of_clean hclean
  by_cases hn : n < s.tokenize.tokens.length
  · rw [s.answer_of_lt hn] at h
    exact Except.ok.inj h ▸ List.getElem_mem hn
  · have hlength : s.tokenize.tokens.length = front.length + 1 := by
      rw [htokens, List.length_append, List.length_singleton]
    rw [hrepeat n (by omega)] at h
    rw [htokens, ← Except.ok.inj h]
    exact List.mem_append_right _ List.mem_cons_self

/-- The character stands in a string of the source. -/
def Source.QuotesChar (s : Source) (c : Char) : Prop :=
  ∃ t ∈ s.tokenize.tokens, t.kind = .string ∧ c ∈ t.text.toList

/-- The characters of the strings stand in the text. -/
theorem Source.QuotesChar.mem {filename text : String} {c : Char}
    (h : (Source.ofString filename text).QuotesChar c) : c ∈ (text ++ "\n").toList := by
  obtain ⟨t, ht, hk, hc⟩ := h
  obtain ⟨before, more, htext, -⟩ := exists_cut_of_mem_tokens ht
  have hlexeme : c ∈ (lexemeOf t.word).toList := by
    rw [Token.word, hk, lexemeOf_string, String.toList_append, String.toList_append]
    exact List.mem_append_left _ (List.mem_append_right _ hc)
  rw [htext]
  exact List.mem_append_right _ (List.mem_append_left _ hlexeme)

/-- Without faults, a source hands out nothing but ASCII and the characters of its strings. -/
theorem Source.madeOf_isAscii_or {s : Source} (hclean : s.tokenize.failure = none) :
    s.MadeOf fun c => IsAscii c ∨ s.QuotesChar c := by
  intro n t h c hc
  have ht := mem_tokens_of_answer hclean h
  by_cases hk : t.kind = .string
  · exact .inr ⟨t, ht, hk, hc⟩
  · exact .inl (isAscii_of_spells (spells_of_mem_tokens ht) hk c hc)

/-- Each character of the code of a text is ASCII or stands in a string of the text. -/
theorem isAscii_or_quotesChar {filename text : String} {c : Compiled}
    (h : compile filename text = .ok c) :
    AllChars (fun ch => IsAscii ch ∨ (Source.ofString filename text).QuotesChar ch) c.code := by
  obtain ⟨d, hdraft, -⟩ := exists_draft_of_compile h
  have hsource := Source.madeOf_isAscii_or (Source.clean_of_draft hdraft)
  have hascii : ∀ ch, IsAscii ch →
      IsAscii ch ∨ (Source.ofString filename text).QuotesChar ch := fun _ => .inl
  unfold compile translateText at h
  split at h
  · cases h
  · rename_i translator source hstart
    have hstarted := Translation.MadeOf.start hascii hsource hstart
    split at h
    · cases h
    · rename_i t htranslate
      have hrun := hstarted.run hascii
      rw [Translation.translate] at htranslate
      rw [htranslate] at hrun
      obtain rfl := Except.ok.inj h
      exact allChars_append.mpr ⟨hrun.draft.header, hrun.draft.body⟩

end PocketBasic

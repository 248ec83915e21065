import Mathlib
import PocketBasic.Proofs.Lexing.Writing
import PocketBasic.Proofs.ReferenceTranslation
import PocketBasic.Proofs.Translation.Relocation

/-!
# Layout does not matter

Blanks and comments leave no trace in the tokens of a source but their places, and empty lines
leave line ends.  So two sources that differ in layout only have the same tokens, if places are
disregarded, line ends at the beginning are dropped, and line ends behind a line end as well.
What is left then is the skeleton of a source (`Source.skeleton`).

That line ends may be dropped is a matter of the grammar.  Where one may stand behind another,
reading it changes nothing (`Draft.read_of_atLineStart`), and behind a line end that was read
there is such a place (`Draft.atLineStart_of_read`).  So dropping them changes nothing in what a
list of tokens is read as (`Draft.readAll_condenseBehind`).  That places may be disregarded is
what relocation to one and the same place says.

Main statement: of two sources with the same skeleton, either both have a result, and the code,
the variables and the labels agree, or both have a fault, and the causes agree
(`compile_of_skeleton_eq`).
-/

namespace PocketBasic

/-! ## Condensed tokens -/

/-- Tokens without the line ends that stand behind a line end.  The flag says whether a line end,
or the beginning of the text, stands before the tokens. -/
def condenseBehind : Bool → List Token → List Token
  | _, [] => []
  | lineStart, t :: ts =>
    if t.kind = .newline then
      if lineStart then condenseBehind true ts else t :: condenseBehind true ts
    else t :: condenseBehind false ts

/-- Tokens without the line ends at the beginning and with one line end for each run of them. -/
def condense (ts : List Token) : List Token := condenseBehind true ts

/-- The kinds and texts of the tokens of a source, without its layout. -/
def Source.skeleton (s : Source) : List (Kind × String) :=
  (condense s.tokenize.tokens).map Token.word

namespace Draft

variable {d e : Draft} {t : Token}

/-- Whether a draft stands where line ends are passed over. -/
def AtLineStart (d : Draft) : Prop :=
  d.control.place = .beginning ∨ ∃ opens, d.control.place = .blankLines opens

theorem atLineStart_start (names : Names) (listing : Listing) :
    (start names listing).AtLineStart := .inl rfl

/-- A line end that is passed over changes nothing. -/
theorem read_of_atLineStart (hd : d.AtLineStart) (hk : t.kind = .newline) : d.read t = .ok d := by
  obtain ⟨names, listing, ⟨place, blocks⟩, target⟩ := d
  obtain ⟨kind, text, location⟩ := t
  obtain rfl : kind = .newline := hk
  obtain hplace | ⟨opens, hplace⟩ := hd
  · obtain rfl : place = .beginning := hplace
    rfl
  · obtain rfl : place = .blankLines opens := hplace
    cases opens <;> rfl

/-- Behind a line end, line ends are passed over. -/
theorem atLineStart_of_read (h : d.read t = .ok e) (hk : t.kind = .newline) : e.AtLineStart := by
  have hnext := react_of_read h
  rw [hk] at hnext
  obtain hcomplete | hproceed := hnext
  · have hend := (Control.reactSettled_eq_complete_iff.mp hcomplete).2.1
    exact Kind.noConfusion hend
  · have hstep := Control.Step.of_reactSettled hproceed
    rw [AtLineStart]
    generalize Place.settle .newline d.control.place = settled at hstep
    generalize e.control = next at hstep ⊢
    cases hstep with
    | beginning => exact .inl rfl
    | lineEnd opens | blankLines opens => exact .inr ⟨opens, rfl⟩
    | sign _ hk | operand _ hk | signed _ hk | operator _ hk | tested _ hk | compared _ hk => cases hk

/-- Dropping line ends behind line ends changes nothing in what tokens are read as. -/
theorem readAll_condenseBehind (ts : List Token) {lineStart : Bool}
    (h : lineStart → d.AtLineStart) : d.readAll (condenseBehind lineStart ts) = d.readAll ts := by
  induction ts generalizing d lineStart with
  | nil => rfl
  | cons t ts ih =>
    rw [condenseBehind]
    split
    · rename_i hk
      split
      · rename_i hstart
        rw [readAll, read_of_atLineStart (h hstart) hk]
        exact ih fun _ => h hstart
      · rw [readAll, readAll]
        cases hread : d.read t with
        | error fault => rfl
        | ok e => exact ih fun _ => atLineStart_of_read hread hk
    · rw [readAll, readAll]
      cases d.read t with
      | error fault => rfl
      | ok e => exact ih fun hfalse => absurd hfalse Bool.false_ne_true

/-- What comes of a whole program: its tokens are read, and then its jumps are looked at. -/
def readProgram (d : Draft) (ts : List Token) : Except Fault Draft :=
  (d.readAll ts).bind fun d =>
    d.conclude.mapError fun jump => (.naming (.undeclaredLabel jump.1), jump.2)

theorem readProgram_condense (names : Names) (listing : Listing) (ts : List Token) :
    (start names listing).readProgram (condense ts) = (start names listing).readProgram ts := by
  rw [readProgram, condense, readAll_condenseBehind ts fun _ => atLineStart_start names listing,
    readProgram]

/-- A program that stands elsewhere comes to the same. -/
theorem readProgram_relocate {f : Location → Location} (d : Draft) (ts : List Token) :
    (d.relocate f).readProgram (ts.map (.relocate f)) = relocateOutcome f (d.readProgram ts) := by
  rw [readProgram, readAll_relocate]
  refine relocateOutcome_bind fun e => ?_
  rw [conclude_relocate]
  cases e.conclude <;> rfl

/-- Tokens with the same words have programs that come to the same, if all places are made one. -/
theorem readProgram_of_words_eq {ts us : List Token} (h : ts.map Token.word = us.map Token.word)
    (place : Location) :
    relocateOutcome (fun _ => place) ((start .empty .empty).readProgram ts) =
      relocateOutcome (fun _ => place) ((start .empty .empty).readProgram us) := by
  have hplaced (ts : List Token) : ts.map (Token.relocate fun _ => place) =
      (ts.map Token.word).map fun word => Token.mk word.1 word.2 place := by
    rw [List.map_map]
    rfl
  rw [← readProgram_relocate, ← readProgram_relocate, hplaced, hplaced, h]

end Draft

namespace Source

variable {s s' : Source}

/-- To translate a source without a lexical fault is to read its program. -/
theorem draft_eq_readProgram (hclean : s.tokenize.failure = none) :
    s.draft = ((Draft.start .empty .empty).readProgram s.tokenize.tokens).mapError
      fun fault => s.report fault.1 fault.2 := by
  rw [draft_eq_readAll hclean, Draft.readProgram]
  cases (Draft.start .empty .empty).readAll s.tokenize.tokens with
  | error fault => rfl
  | ok e =>
    show Draft.concludeAt s.report e = (e.conclude.mapError _).mapError _
    rw [Draft.concludeAt]
    cases e.conclude <;> rfl

/-- Sources with the same skeleton have programs that come to the same, if all places are
made one. -/
theorem readProgram_of_skeleton_eq (h : s.skeleton = s'.skeleton) (place : Location) :
    relocateOutcome (fun _ => place) ((Draft.start .empty .empty).readProgram s.tokenize.tokens) =
      relocateOutcome (fun _ => place)
        ((Draft.start .empty .empty).readProgram s'.tokenize.tokens) := by
  rw [← Draft.readProgram_condense, ← Draft.readProgram_condense _ _ s'.tokenize.tokens]
  exact Draft.readProgram_of_words_eq h place

end Source

/-- A cause without the place that it cites. -/
def Cause.withoutPlace : Cause → Cause
  | naming (.duplicateLabel name _) => .naming (.duplicateLabel name none)
  | cause => cause

theorem Cause.withoutPlace_relocate {f : Location → Location} (c : Cause) :
    (c.relocate f).withoutPlace = c.withoutPlace := by
  cases c with
  | naming fault => cases fault <;> rfl
  | lexical fault | grammar fault | access fault | worded family description hint => rfl

/-- Two sources that are read without a lexical fault and differ in layout only are compiled
alike: either both have a result, with the same code, the same variables and the same labels, or
both have a fault, with the same cause, but for the place that it may cite, in the same words. -/
theorem compile_of_skeleton_eq {filename filename' text text' : String}
    (hclean : (Source.ofString filename text).tokenize.failure = none)
    (hclean' : (Source.ofString filename' text').tokenize.failure = none)
    (h : (Source.ofString filename text).skeleton = (Source.ofString filename' text').skeleton) :
    (∃ c c', compile filename text = .ok c ∧ compile filename' text' = .ok c' ∧
      c.code = c'.code ∧ c.variableNames = c'.variableNames ∧ c.labels = c'.labels) ∨
    (∃ d d', compile filename text = .error d ∧ compile filename' text' = .error d' ∧
      d.cause.withoutPlace = d'.cause.withoutPlace ∧
      d.cause.description = d'.cause.description) := by
  -- which place all places are made does not matter
  have hsame := Source.readProgram_of_skeleton_eq h ⟨"", 0, 0⟩
  rw [compile_eq, compile_eq, Source.draft_eq_readProgram hclean,
    Source.draft_eq_readProgram hclean']
  cases hread : (Draft.start .empty .empty).readProgram
      (Source.ofString filename text).tokenize.tokens with
  | ok d =>
    cases hread' : (Draft.start .empty .empty).readProgram
        (Source.ofString filename' text').tokenize.tokens with
    | ok d' =>
      rw [hread, hread'] at hsame
      obtain ⟨hlisting, hvariables, hlabels⟩ :=
        Draft.same_of_relocate_eq (Except.ok.inj hsame)
      refine .inl ⟨_, _, rfl, rfl, congrArg Listing.render hlisting, ?_, hlabels⟩
      exact congrArg (fun names => names.mergeSort fun a b => a ≤ b) hvariables
    | error fault' =>
      rw [hread, hread'] at hsame
      cases hsame
  | error fault =>
    cases hread' : (Draft.start .empty .empty).readProgram
        (Source.ofString filename' text').tokenize.tokens with
    | ok d' =>
      rw [hread, hread'] at hsame
      cases hsame
    | error fault' =>
      rw [hread, hread'] at hsame
      have hcause : fault.1.relocate _ = fault'.1.relocate _ :=
        congrArg Prod.fst (Except.error.inj hsame)
      refine .inr ⟨_, _, rfl, rfl, ?_, ?_⟩
      · have hplaceless := congrArg Cause.withoutPlace hcause
        rwa [Cause.withoutPlace_relocate, Cause.withoutPlace_relocate] at hplaceless
      · have hwords := congrArg Cause.description hcause
        rwa [Cause.description_relocate, Cause.description_relocate] at hwords

/-- A program on two lines and the same program with a comment and empty lines, in which a label
is declared twice.  The two faults cite different lines. -/
theorem compile_of_skeleton_eq_second_label :
    (Source.ofString "a.tt" "LABEL a\nLABEL a").tokenize.failure = none ∧
      (Source.ofString "b.tt" "\n LABEL a # one\n\n\nLABEL  a\n").tokenize.failure = none ∧
      (Source.ofString "a.tt" "LABEL a\nLABEL a").skeleton =
        (Source.ofString "b.tt" "\n LABEL a # one\n\n\nLABEL  a\n").skeleton ∧
      ∃ d d', compile "a.tt" "LABEL a\nLABEL a" = .error d ∧
        compile "b.tt" "\n LABEL a # one\n\n\nLABEL  a\n" = .error d' ∧
        d.cause = .naming (.duplicateLabel "a" (some ⟨"a.tt", 1, 7⟩)) ∧
        d'.cause = .naming (.duplicateLabel "a" (some ⟨"b.tt", 2, 8⟩)) ∧
        d.cause.description = d'.cause.description := by
  have hclean : (Source.ofString "a.tt" "LABEL a\nLABEL a").tokenize.failure = none := by cbv
  have hclean' : (Source.ofString "b.tt"
      "\n LABEL a # one\n\n\nLABEL  a\n").tokenize.failure = none := by cbv
  have hskeleton : (Source.ofString "a.tt" "LABEL a\nLABEL a").skeleton =
      (Source.ofString "b.tt" "\n LABEL a # one\n\n\nLABEL  a\n").skeleton := by cbv
  have hfault : compile "a.tt" "LABEL a\nLABEL a" = .error
      ⟨.naming (.duplicateLabel "a" (some ⟨"a.tt", 1, 7⟩)), some ⟨"a.tt", 2, 7⟩, some "LABEL a"⟩ := by
    cbv
  have hfault' : compile "b.tt" "\n LABEL a # one\n\n\nLABEL  a\n" = .error
      ⟨.naming (.duplicateLabel "a" (some ⟨"b.tt", 2, 8⟩)), some ⟨"b.tt", 5, 8⟩,
        some "LABEL  a"⟩ := by
    cbv
  refine ⟨hclean, hclean', hskeleton, _, _, hfault, hfault', rfl, rfl, ?_⟩
  rcases compile_of_skeleton_eq hclean hclean' hskeleton with
    ⟨c, c', hc, -⟩ | ⟨d, d', hd, hd', -, hwords⟩
  · rw [hfault] at hc
    cases hc
  · rw [hfault] at hd
    rw [hfault'] at hd'
    obtain rfl := Except.error.inj hd
    obtain rfl := Except.error.inj hd'
    exact hwords

end PocketBasic

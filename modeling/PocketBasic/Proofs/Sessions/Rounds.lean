import PocketBasic.Proofs.Translation.Ledgers
import PocketBasic.Session

/-!
# Rounds of a translator

A translator that has a source and a listing of its own can be asked for one program after the
other, whether the one before it has failed or not.  The names that it has declared and the header
of the listing are written in different places, one line at a time, and either may be left in the
middle of a statement.  Still they say the same (`Workbench.Abreast`): every round adds the opening
lines to the header, and then a line for each name that is new, and the names are those that the
tokens declare which were read over.

Main statement: a translator and its listing are abreast after any number of rounds
(`Workbench.abreast_after`).
-/

namespace PocketBasic

/-- A translator with a source and a listing that nothing else uses. -/
structure Workbench where
  translator : Translator
  source : Source
  listing : Listing

namespace Workbench

/-- A translator with its source and nothing written yet. -/
def fresh (r : Translator) (s : Source) : Workbench := ⟨r, s, .empty⟩

/-- Asks the translator for a program, and keeps what it leaves, whether it has failed or not. -/
def translate (w : Workbench) : Workbench :=
  let t := (Translation.translate w.translator w.source w.listing).2
  ⟨t.toTranslator, t.source, t.listing⟩

/-- A session does the same with a translator and the things that it works on. -/
theorem translate_eq (s : Session) (k : ℕ) (bound : BoundTranslator) (source : Source)
    (output : Output) :
    let w := translate ⟨bound.translator, source, output.listing⟩
    (s.translate k bound source output).2 =
      { s with
        sources := s.sources.set bound.source w.source
        outputs := s.outputs.set bound.output { output with listing := w.listing }
        translators := s.translators.set k { bound with translator := w.translator } } := rfl

/-- The tokens that are in hand while the translator is at work. -/
def round (w : Workbench) : List Token :=
  (Translation.start w.translator w.source w.listing).handled

/-- What a number of programs leave. -/
def after (w : Workbench) : ℕ → Workbench
  | 0 => w
  | n + 1 => (w.after n).translate

/-- The tokens that are in hand in each of a number of rounds. -/
def rounds (w : Workbench) (n : ℕ) : List (List Token) :=
  (List.range n).map fun i => (w.after i).round

/-- The variables that are declared. -/
def variableNames (w : Workbench) : List String := w.translator.names.variableNames

/-- The names of a translator and the header of its listing say the same, after some rounds. -/
structure Abreast (w : Workbench) (rounds : List (List Token)) : Prop where
  /-- A variable is declared exactly if tokens that were read over in some round declare it. -/
  declared_iff (name : String) : name ∈ w.variableNames ↔
    ∃ round ∈ rounds, ∃ before next behind, round = before ++ next :: behind ∧
      Declares before next name
  /-- The variables stand in the order in which they were declared first. -/
  inTurn : ∃ names, DeclaredInTurn (rounds.flatMap (momentsBehind [])) names ∧
    w.variableNames = names.eraseDups
  /-- No variable is declared twice. -/
  distinct : w.variableNames.Nodup
  /-- The header has the opening lines of each round, and behind them a line for each variable that
  is new in it. -/
  header : ∃ groups : List (List String), groups.length = rounds.length ∧
    groups.flatten = w.variableNames ∧
    w.listing.header = unlines (groups.flatMap fun g => preamble ++ g.map Draft.declarationLine)

/-- What a workbench has declared, and the header that it has written. -/
def ledger (w : Workbench) : Ledger := ⟨w.variableNames, w.listing.header⟩

theorem rounds_succ (w : Workbench) (n : ℕ) :
    w.rounds (n + 1) = w.rounds n ++ [(w.after n).round] := by
  rw [rounds, List.range_succ, List.map_append]
  rfl

/-- A round opens a program and declares what is declared in its moments. -/
theorem exists_declaredInTurn_translate (w : Workbench) :
    ∃ xs, DeclaredInTurn (momentsBehind [] w.round) xs ∧
      w.translate.ledger = w.ledger.opened.enterAll xs := by
  refine Translation.exists_declaredInTurn_run (o := none)
    (Draft.standsBehind_start w.translator.names w.listing) (fun x => ⟨fun hends => ?_, ?_⟩) ?_
  · generalize hts : ([] : List Token) = ts at hends
    obtain ⟨before, word, name⟩ := hends
    exact absurd hts.symm (List.append_ne_nil_of_right_ne_nil _ (List.cons_ne_nil _ _))
  · rintro ⟨⟩
  · exact congrArg (Ledger.mk w.variableNames) String.append_assoc

/-- What is declared in the moments of some rounds is declared behind tokens of one of them. -/
theorem mem_iff_of_declaredInTurn {rounds : List (List Token)} {names : List String}
    (h : DeclaredInTurn (rounds.flatMap (momentsBehind [])) names) {name : String} :
    name ∈ names ↔ ∃ round ∈ rounds, ∃ before next behind, round = before ++ next :: behind ∧
      Declares before next name := by
  rw [h.mem_iff]
  constructor
  · rintro ⟨⟨before, next⟩, hmoment, hdeclares⟩
    obtain ⟨round, hround, hmem⟩ := List.mem_flatMap.mp hmoment
    obtain ⟨_, behind, hcut, rfl⟩ := mem_momentsBehind.mp hmem
    exact ⟨round, hround, _, next, behind, hcut, hdeclares⟩
  · rintro ⟨round, hround, before, next, behind, hcut, hdeclares⟩
    refine ⟨(before, next), List.mem_flatMap.mpr ⟨round, hround, ?_⟩, hdeclares⟩
    exact mem_momentsBehind.mpr ⟨before, behind, hcut, rfl⟩

/-- Before the first round, there is neither a name nor a header. -/
theorem abreast_fresh {r : Translator} (h : r.names = .empty) (s : Source) :
    (fresh r s).Abreast [] := by
  have hnames : (fresh r s).variableNames = [] := congrArg Names.variableNames h
  refine ⟨fun name => ?_, ⟨[], .nil, hnames⟩, ?_, ⟨[], rfl, hnames.symm, rfl⟩⟩
  · rw [hnames]
    simp
  · rw [hnames]
    exact List.nodup_nil

/-- One more round keeps the names and the header abreast. -/
theorem Abreast.translate {w : Workbench} {rounds : List (List Token)} (h : w.Abreast rounds) :
    w.translate.Abreast (rounds ++ [w.round]) := by
  obtain ⟨names, hnames, hdeclared⟩ := h.inTurn
  obtain ⟨groups, hlength, hflatten, hheader⟩ := h.header
  obtain ⟨xs, hxs, hledger⟩ := w.exists_declaredInTurn_translate
  obtain ⟨added, hadded, hlines⟩ := w.ledger.opened.exists_added xs
  rw [← hledger] at hadded hlines
  have hturn : DeclaredInTurn ((rounds ++ [w.round]).flatMap (momentsBehind [])) (names ++ xs) := by
    rw [List.flatMap_append, List.flatMap_singleton]
    exact hnames.append hxs
  have hnames : w.translate.variableNames = (names ++ xs).eraseDups :=
    (congrArg Ledger.names hledger).trans (Ledger.names_enterAll hdeclared)
  refine ⟨fun name => ?_, ⟨names ++ xs, hturn, hnames⟩, ?_, groups ++ [added], ?_, ?_, ?_⟩
  · rw [hnames, List.mem_eraseDups, mem_iff_of_declaredInTurn hturn]
  · rw [hnames]
    exact nodup_eraseDups _
  · rw [List.length_append, List.length_append, hlength]
    rfl
  · rw [List.flatten_append, List.flatten_singleton, hflatten]
    exact hadded.symm
  · rw [List.flatMap_append, List.flatMap_singleton, unlines_append, unlines_append preamble,
      ← hheader, ← String.append_assoc]
    exact hlines

/-- The names of a translator and the header of its listing say the same, after any number of
programs that it was asked for, whether they failed or not. -/
theorem abreast_after {s behind : Source} {r : Translator}
    (h : Translator.start s = (.ok r, behind)) (n : ℕ) :
    ((fresh r behind).after n).Abreast ((fresh r behind).rounds n) := by
  induction n with
  | zero =>
    refine abreast_fresh ?_ behind
    rcases Translator.start_cases s with ⟨d, m, hstart⟩ | ⟨current, upcoming, hstart, -, -⟩
    · rw [hstart] at h
      cases h
    · rw [hstart] at h
      rw [← Except.ok.inj (congrArg Prod.fst h)]
  | succ n ih =>
    rw [rounds_succ]
    exact ih.translate

/-- A label that stands twice ends the first round in the middle of a program, and the second round
begins behind it.  The assignment that the second round fails in declares nothing. -/
theorem abreast_after_two :
    ∃ r behind, Translator.start (Source.ofString "a.tt"
        "LET a = 1\nLABEL x\nLABEL x\nINPUT b\nLET c = c\n") = (.ok r, behind) ∧
      ((fresh r behind).after 2).Abreast ((fresh r behind).rounds 2) ∧
      ((fresh r behind).after 2).variableNames = ["a", "b"] ∧
      ((fresh r behind).after 2).listing.header =
        "#include <stdio.h>\nint main(void)\x7b\nfloat a;\n" ++
          "#include <stdio.h>\nint main(void)\x7b\nfloat b;\n" := by
  have hstart : Translator.start (Source.ofString "a.tt"
      "LET a = 1\nLABEL x\nLABEL x\nINPUT b\nLET c = c\n") =
      (.ok ⟨⟨.keyword .LET, "LET", ⟨"a.tt", 1, 1⟩⟩, ⟨.identifier, "a", ⟨"a.tt", 1, 5⟩⟩, .empty⟩,
        (Source.ofString "a.tt"
          "LET a = 1\nLABEL x\nLABEL x\nINPUT b\nLET c = c\n").after 2) := by
    cbv
  exact ⟨_, _, hstart, abreast_after hstart 2, by cbv, by cbv⟩

end Workbench
end PocketBasic

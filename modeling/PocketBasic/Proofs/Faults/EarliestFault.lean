import PocketBasic.Proofs.Faults.FirstFault
import PocketBasic.Proofs.Grammar.Prefixes
import PocketBasic.Proofs.Lexing.Order

/-!
# Faults of the grammar come as early as they can

A text that is rejected because its tokens form no program is rejected at the first token with
which no sentence of the grammar goes on.  The tokens before it do begin a sentence, and so do
these tokens with any token that the fault names as expected.

Two things come together here.  A fault of the grammar is found by the check of one token, which
the control rejects behind the tokens before it (`exists_of_firstFault_grammar`); and what the
control rejects begins no sentence, while what it expects does.

Main statement: `compile_earliest_fault`.
-/

namespace PocketBasic

/-- What a fault of the grammar says about a token behind other tokens. -/
structure Earliest (before : List Token) (t : Token) (fault : GrammarFault) : Prop where
  /-- No sentence begins with the tokens up to this one. -/
  not_begins : ¬ Begins ((before ++ [t]).map Token.kind)
  /-- Some sentence begins with the tokens before it. -/
  begins : Begins (before.map Token.kind)
  /-- The fault names what was expected, and a sentence could go on with any of it. -/
  expected : ∃ e : Expectation, fault = e.fault t ∧ e.kinds ≠ [] ∧
    ∀ k ∈ e.kinds, Begins (before.map Token.kind ++ [k])

variable {before ts : List Token} {t : Token} {fault : GrammarFault} {place : Location}

/-- A token that does not fit the tokens before it is the earliest that does not. -/
theorem earliest_of_grammarFault? (h : grammarFault? before t = some (.grammar fault, place)) :
    place = t.location ∧ Earliest before t fault := by
  obtain ⟨c, e, hc, hreject, heq⟩ := exists_of_grammarFault? h
  obtain ⟨hfault, rfl⟩ := Prod.mk.inj heq
  obtain rfl := Cause.grammar.inj hfault
  refine ⟨rfl, ?_, begins_of_follow hc, e, rfl, e.kinds_ne_nil, fun k hk => ?_⟩
  · rw [List.map_append]
    exact not_begins_of_reject hc hreject
  · exact begins_of_mem_kinds hc hreject hk

/-- A fault of the grammar is found by the check of a token. -/
theorem exists_of_firstFault_grammar {n : Nat}
    (h : firstFault ts n = some (.grammar fault, place)) :
    ∃ before t behind, ts = before ++ t :: behind ∧
      grammarFault? before t = some (.grammar fault, place) := by
  obtain ⟨before, t, behind, hts, hlabel | hgrammar | hvariable⟩ := exists_of_firstFault h
  · obtain ⟨-, first, -, heq⟩ := exists_of_labelFault? hlabel
    cases heq
  · exact ⟨before, t, behind, hts, hgrammar⟩
  · cases (eq_of_variableFault? hvariable).2

/-- A source that is rejected because its tokens form no program is rejected for the first fault
of its checks. -/
theorem Source.exists_firstFault_of_grammar {s : Source} {d : Diagnostic}
    (h : s.firstFault? = some d) (hcause : d.cause = .grammar fault) :
    ∃ n place, firstFault s.tokenize.tokens n = some (.grammar fault, place) ∧
      d.location = some place := by
  unfold firstFault? at h
  split at h
  · obtain ⟨⟨cause, place⟩, hfirst, rfl⟩ := Option.map_eq_some_iff.mp h
    obtain rfl : cause = .grammar fault := hcause
    rcases Option.or_eq_some_iff.mp hfirst with hfirst | ⟨-, hjump⟩
    · exact ⟨_, place, hfirst, rfl⟩
    · obtain ⟨t, -, ht⟩ := Option.map_eq_some_iff.mp hjump
      cases ht
  · -- a lexical fault is reported only if no check before it fails
    rename_i lexical hfailure
    obtain rfl := Option.some.inj h
    cases hfirst : firstFault s.tokenize.tokens (s.tokenize.tokens.length - 1) with
    | some first =>
      rw [hfirst] at hcause
      obtain ⟨cause, place⟩ := first
      obtain rfl : cause = .grammar fault := hcause
      exact ⟨_, place, hfirst, rfl⟩
    | none =>
      rw [hfirst] at hcause
      obtain ⟨found, hfound⟩ := cause_of_failure hfailure
      rw [Option.map_none, Option.getD_none, hfound] at hcause
      cases hcause

/-- A text that is rejected because its tokens form no program is rejected at the first token
with which no sentence goes on, and for the reason that the fault says. -/
theorem compile_earliest_fault {filename text : String} {d : Diagnostic}
    (h : compile filename text = .error d) (hcause : d.cause = .grammar fault) :
    ∃ before t behind,
      (Source.ofString filename text).tokenize.tokens = before ++ t :: behind ∧
      d.location = some t.location ∧
      (∀ u ∈ before ++ behind, u.location ≠ t.location) ∧
      Earliest before t fault := by
  have hfirst : (Source.ofString filename text).firstFault? = some d := by
    rw [compile_eq] at h
    rcases (Source.ofString filename text).draft_of_firstFault? with
      ⟨-, draft, hdraft⟩ | ⟨first, hfirst, hdraft⟩
    · rw [hdraft] at h
      cases h
    · rw [hdraft] at h
      rw [hfirst, Except.error.inj h]
  obtain ⟨n, place, hfault, hplace⟩ := Source.exists_firstFault_of_grammar hfirst hcause
  obtain ⟨before, t, behind, htokens, hgrammar⟩ := exists_of_firstFault_grammar hfault
  obtain ⟨rfl, hearliest⟩ := earliest_of_grammarFault? hgrammar
  refine ⟨before, t, behind, htokens, hplace, ?_, hearliest⟩
  have hapart := Source.pairwise_location filename text
  rw [htokens, List.pairwise_append, List.pairwise_cons] at hapart
  obtain ⟨-, ⟨hbehind, -⟩, hbefore⟩ := hapart
  intro u hu
  rcases List.mem_append.mp hu with hu | hu
  · exact hbefore u hu t List.mem_cons_self
  · exact (hbehind u hu).symm

/-- A block that is left open is found at the end of the input, where its end is expected. -/
theorem compile_earliest_fault_open_block :
    compile "open.tt" "IF 1 < 2 THEN\nPRINT 1" = .error
      ⟨.grammar (.missingToken "'ENDIF'" "end of input"), some ⟨"open.tt", 3, 1⟩, some ""⟩ ∧
    ∃ before t behind,
      (Source.ofString "open.tt" "IF 1 < 2 THEN\nPRINT 1").tokenize.tokens =
        before ++ t :: behind ∧
      Location.mk "open.tt" 3 1 = t.location ∧
      (∀ u ∈ before ++ behind, u.location ≠ t.location) ∧
      Earliest before t (.missingToken "'ENDIF'" "end of input") := by
  have h : compile "open.tt" "IF 1 < 2 THEN\nPRINT 1" = .error
      ⟨.grammar (.missingToken "'ENDIF'" "end of input"), some ⟨"open.tt", 3, 1⟩, some ""⟩ := by
    cbv
  obtain ⟨before, t, behind, htokens, hplace, hearliest⟩ := compile_earliest_fault h rfl
  exact ⟨h, before, t, behind, htokens, Option.some.inj hplace, hearliest⟩

end PocketBasic

import Mathlib
import PocketBasic.Proofs.TokenList

/-!
# The fetches of a run

A run reads over one token after the other, and the only thing that costs it anything is to fetch
the next one.  `Course` tells a run by its fetches.  It has a rule for each way in which a step can
end, and every rule names the fetch that is made in the step, as the translation that makes it, or
shows that none is made.  A course is a finite thing, so to give the course of a run is to say that
the run ends; and there is one course only (`Course.unique`), so the fetches that are in it are
those that are made.

The two tokens that a translator is started on are fetched before any run.  `Opening` tells these
fetches in the same way, by the answers that they bring.

Main statement: every run has a course, in which no fetch is made with the end of the input in
hand, so that the tokens in hand and the characters that are left are more than the fetches; and an
accepted text is read with one fetch for each of its tokens and two before them
(`Translation.run_fetches`).
-/

namespace PocketBasic

/-- How a translator is started on a source: the answers that it takes, and what comes of them. -/
inductive Translator.Opening (s : Source) :
    List (Except Diagnostic Token) → Except Diagnostic Translator × Source → Prop where
  | firstFault {fault : Diagnostic} {s₁ : Source} (h : s.next = (.error fault, s₁)) :
    Opening s [.error fault] (.error fault, s₁)
  | secondFault {current : Token} {fault : Diagnostic} {s₁ s₂ : Source}
    (h : s.next = (.ok current, s₁)) (h' : s₁.next = (.error fault, s₂)) :
    Opening s [.ok current, .error fault] (.error fault, s₂)
  | ready {current upcoming : Token} {s₁ s₂ : Source}
    (h : s.next = (.ok current, s₁)) (h' : s₁.next = (.ok upcoming, s₂)) :
    Opening s [.ok current, .ok upcoming] (.ok ⟨current, upcoming, .empty⟩, s₂)

/-- A translator that begins has taken two answers, which are the tokens in its hand. -/
theorem Translator.opening_of_start {s behind : Source} {r : Translator}
    (h : Translator.start s = (.ok r, behind)) :
    Translator.Opening s [.ok r.current, .ok r.upcoming] (.ok r, behind) ∧
      behind = s.after 2 ∧ s.answer 0 = .ok r.current ∧ s.answer 1 = .ok r.upcoming := by
  rcases Translator.start_cases s with
    ⟨fault, n, hstart⟩ | ⟨current, upcoming, hstart, hcurrent, hupcoming⟩
  · rw [hstart] at h
    cases h
  · rw [hstart] at h
    obtain ⟨hr, rfl⟩ := Prod.mk.inj h
    obtain rfl := Except.ok.inj hr
    have hfirst : s.next = (.ok current, s.after 1) := Prod.ext hcurrent rfl
    have hsecond : (s.after 1).next = (.ok upcoming, s.after 2) := Prod.ext hupcoming rfl
    exact ⟨.ready hfirst hsecond, rfl, hcurrent, hupcoming⟩

/-- A source that has handed out the end of the input counts no more tokens. -/
theorem Source.produced_after_endOfInput {s : Source} {n : ℕ} {t : Token}
    (h : s.answer n = .ok t) (hk : t.kind = .endOfInput) :
    (s.after (n + 2)).produced = (s.after n).produced ∧ s.answer (n + 1) = .ok t := by
  have hnext : s.answer (n + 1) = .ok t := by
    rw [← answer_after]
    exact (answer_of_endOfInput h hk 1).1
  have hstays : ∀ m, s.answer m = .ok t → (s.after (m + 1)).produced = (s.after m).produced := by
    intro m hm
    rw [after, produced_next]
    show _ + countOf (s.answer m) = _
    rw [hm, countOf, if_pos hk, Nat.add_zero]
  exact ⟨(hstays (n + 1) hnext).trans (hstays n h), hnext⟩

/-- An accepted text is translated in a run of a translator that is started on it. -/
theorem exists_translate_of_compile {filename text : String} {c : Compiled}
    (h : compile filename text = .ok c) :
    ∃ r behind t, Translator.start (.ofString filename text) = (.ok r, behind) ∧
      Translation.translate r behind .empty = (none, t) ∧ c = .ofTranslation filename t := by
  rw [compile, translateText] at h
  split at h
  · cases h
  · rename_i r behind hstart
    split at h
    · cases h
    · rename_i t htranslate
      exact ⟨r, behind, t, hstart, htranslate, (Except.ok.inj h).symm⟩

namespace Translation

/-- How a run goes: the fetches that are made in it, each with the translation that makes it, and
what the run comes to. -/
inductive Course : Translation → List Translation → Option Diagnostic × Translation → Prop where
  /-- The program is complete. -/
  | complete {t : Translation} {d : Draft} (h : t.settled.check t.current = .complete)
    (hconclude : t.settled.conclude = .ok d) : Course t [] (none, t.withDraft d)
  /-- The program is complete, and a jump in it leads nowhere. -/
  | dangling {t : Translation} {name : String} {place : Location}
    (h : t.settled.check t.current = .complete)
    (hconclude : t.settled.conclude = .error (name, place)) :
    Course t [] (some (t.diagnose (.naming (.undeclaredLabel name)) place), t.withDraft t.settled)
  /-- The token in hand is refused. -/
  | refused {t : Translation} {cause : Cause} (h : t.settled.check t.current = .refused cause) :
    Course t [] (some (t.diagnose cause t.current.location), t.withDraft t.settled)
  /-- The token in hand passes, and there is a fault in the place of the one that is fetched. -/
  | faulty {t u : Translation} {next : Control} {fault : Diagnostic}
    (h : t.settled.check t.current = .passed next) (hfetch : t.written.fetch = (some fault, u)) :
    Course t [t.written] (some fault, u)
  /-- Another token is fetched, and the one that was in hand declares a label once more. -/
  | clash {t u : Translation} {next : Control} {fault : NameFault}
    (h : t.settled.check t.current = .passed next) (hfetch : t.written.fetch = (none, u))
    (hfinish : u.toDraft.finish t.current next = .error fault) :
    Course t [t.written] (some (t.diagnose (.naming fault) t.current.location), u)
  /-- Another token is fetched, the one that was in hand is read over, and the run goes on. -/
  | readOver {t u : Translation} {next : Control} {d : Draft} {fetches : List Translation}
    {o : Option Diagnostic × Translation}
    (h : t.settled.check t.current = .passed next) (hfetch : t.written.fetch = (none, u))
    (hfinish : u.toDraft.finish t.current next = .ok d)
    (hcourse : Course (u.withDraft d) fetches o) : Course t (t.written :: fetches) o

variable {s : Source} {t u : Translation} {fetches fetches' : List Translation}
  {o o' : Option Diagnostic × Translation} {next : Control} {n : ℕ}

/-! ## Every run has one course -/

/-- Every run has a course. -/
theorem exists_course (t : Translation) : ∃ fetches, Course t fetches t.run := by
  induction hpending : t.pending using Nat.strongRecOn generalizing t with
  | ind pending ih =>
    cases hcheck : t.settled.check t.current with
    | complete =>
      have hstep := step_of_complete hcheck
      unfold conclude at hstep
      cases hconclude : t.settled.conclude with
      | error jump =>
        rw [hconclude] at hstep
        rw [run_of_failed hstep]
        exact ⟨[], .dangling hcheck hconclude⟩
      | ok d =>
        rw [hconclude] at hstep
        rw [run_of_complete hstep]
        exact ⟨[], .complete hcheck hconclude⟩
    | refused cause =>
      rw [run_of_failed (step_of_refused hcheck)]
      exact ⟨[], .refused hcheck⟩
    | passed next =>
      have hstep := step_of_passed hcheck
      rw [consume, ← written] at hstep
      rcases hfetch : t.written.fetch with ⟨_ | fault, u⟩
      · rw [hfetch] at hstep
        dsimp only at hstep
        cases hfinish : u.toDraft.finish t.current next with
        | error fault =>
          rw [hfinish] at hstep
          rw [run_of_failed hstep]
          exact ⟨_, .clash hcheck hfetch hfinish⟩
        | ok d =>
          rw [hfinish] at hstep
          have hless : (u.withDraft d).pending < pending := hpending ▸ pending_step_lt hstep
          obtain ⟨fetches, hcourse⟩ := ih _ hless (u.withDraft d) rfl
          rw [run_of_running hstep]
          exact ⟨_, .readOver hcheck hfetch hfinish hcourse⟩
      · rw [hfetch] at hstep
        rw [run_of_failed hstep]
        exact ⟨_, .faulty hcheck hfetch⟩

/-- A run has no other course. -/
theorem Course.unique (h : Course t fetches o) (h' : Course t fetches' o') :
    fetches = fetches' ∧ o = o' := by
  induction h generalizing fetches' o' with
  | complete hcheck hconclude => cases h' <;> simp_all
  | dangling hcheck hconclude => cases h' <;> simp_all
  | refused hcheck => cases h' <;> simp_all
  | faulty hcheck hfetch => cases h' <;> simp_all
  | clash hcheck hfetch hfinish => cases h' <;> simp_all
  | readOver hcheck hfetch hfinish _ ih =>
    cases h' with
    | readOver hcheck' hfetch' hfinish' hcourse' =>
      obtain rfl := Draft.Opinion.passed.inj (hcheck.symm.trans hcheck')
      obtain rfl := congrArg Prod.snd (hfetch.symm.trans hfetch')
      obtain rfl := Except.ok.inj (hfinish.symm.trans hfinish')
      obtain ⟨rfl, rfl⟩ := ih hcourse'
      exact ⟨rfl, rfl⟩
    | _ => simp_all

/-! ## What a course costs -/

/-- No fetch is made with the end of the input in hand. -/
theorem Course.kind_ne (h : Course t fetches o) :
    ∀ u ∈ fetches, u.current.kind ≠ .endOfInput := by
  induction h with
  | complete | dangling | refused => exact List.forall_mem_nil _
  | faulty hcheck | clash hcheck =>
    exact List.forall_mem_singleton.mpr (kind_ne_of_check_passed hcheck)
  | readOver hcheck _ _ _ ih => exact List.forall_mem_cons.mpr ⟨kind_ne_of_check_passed hcheck, ih⟩

/-- Each fetch is paid with a token in hand or with a character that is left. -/
theorem Course.length_le (h : Course t fetches o) : fetches.length ≤ t.pending := by
  have hpaid : ∀ {t : Translation}, t.current.kind ≠ .endOfInput → 1 ≤ t.pending := by
    intro t hk
    rw [pending, weight, if_neg hk]
    omega
  induction h with
  | complete | dangling | refused => exact Nat.zero_le _
  | faulty hcheck | clash hcheck => exact hpaid (kind_ne_of_check_passed hcheck)
  | @readOver t _ _ _ _ _ hcheck hfetch _ _ ih =>
    have hless := pending_fetch_lt (t := t.written) (kind_ne_of_check_passed hcheck) hfetch
    exact Nat.succ_le_of_lt (Nat.lt_of_le_of_lt ih hless)

/-- The source is behind as many answers as there are fetches. -/
theorem Course.source_eq (h : Course t fetches o) :
    o.2.source = t.source.after fetches.length := by
  have hfetched : ∀ {t u : Translation} {fault : Option Diagnostic},
      t.written.fetch = (fault, u) → u.source = t.source.after 1 := by
    intro t u fault hfetch
    have hsource := t.written.source_fetch
    rw [hfetch] at hsource
    exact hsource
  induction h with
  | complete | dangling | refused => rfl
  | faulty _ hfetch | clash _ hfetch => exact hfetched hfetch
  | @readOver t u _ d fetches _ _ hfetch _ _ ih =>
    have hu : u.source = t.source.after 1 := hfetched hfetch
    have hlast : _ = u.source.after fetches.length := ih
    rw [hlast, hu, Source.after_after, List.length_cons, Nat.add_comm]

/-! ## Courses that come to their end -/

theorem InStep.of_fetch (h : InStep s n t) (hfetch : t.fetch = (none, u)) :
    InStep s (n + 1) u := by
  have hsource := t.source_fetch
  rw [hfetch, h.source] at hsource
  unfold Translation.fetch at hfetch
  split at hfetch
  · rename_i token behind hnext
    obtain ⟨-, rfl⟩ := Prod.mk.inj hfetch
    rw [h.source] at hnext
    exact ⟨h.upcoming, congrArg Prod.fst hnext, hsource⟩
  · cases hfetch

/-- A run that comes to its end has the end of the input in hand, and each of its fetches has read
over one token before it. -/
theorem Course.inStep (h : Course t fetches o) (ho : o.1 = none) (hin : InStep s n t) :
    InStep s (n + fetches.length) o.2 ∧ o.2.current.kind = .endOfInput ∧
      ∀ i < fetches.length, Source.countOf (s.answer (n + i)) = 1 := by
  induction h generalizing n with
  | complete hcheck =>
    exact ⟨hin.withDraft _, Draft.kind_of_check_complete hcheck, fun i hi => by cases hi⟩
  | dangling | refused | faulty | clash => cases ho
  | @readOver t u _ d fetches _ hcheck hfetch _ _ ih =>
    have hwritten : InStep s n t.written := hin.withDraft _
    obtain ⟨hlast, hend, hcount⟩ := ih ho ((hwritten.of_fetch hfetch).withDraft d)
    rw [List.length_cons, Nat.add_comm fetches.length, ← Nat.add_assoc]
    refine ⟨hlast, hend, fun i hi => ?_⟩
    cases i with
    | zero =>
      rw [Nat.add_zero, hin.current, Source.countOf, if_neg (kind_ne_of_check_passed hcheck)]
    | succ i =>
      rw [Nat.add_comm i, ← Nat.add_assoc]
      exact hcount i (by omega)

/-- A run that begins on the first two tokens of a source and comes to its end makes one fetch for
each token that the source counts. -/
theorem Course.produced_eq {r : Translator} (hcurrent : s.answer 0 = .ok r.current)
    (hupcoming : s.answer 1 = .ok r.upcoming) {l : Listing}
    (h : Course (start r (s.after 2) l) fetches (none, t)) :
    t.source.produced = s.produced + fetches.length ∧ t.current.kind = .endOfInput ∧
      t.upcoming.kind = .endOfInput := by
  have hin : InStep s 0 (start r (s.after 2) l) := ⟨hcurrent, hupcoming, rfl⟩
  obtain ⟨hlast, hend, hcount⟩ := h.inStep rfl hin
  simp only [Nat.zero_add] at hlast hcount
  obtain ⟨hproduced, hagain⟩ := Source.produced_after_endOfInput hlast.current hend
  refine ⟨?_, hend, ?_⟩
  · rw [hlast.source, hproduced, Source.produced_after hcount]
  · rw [Except.ok.inj (hlast.upcoming.symm.trans hagain)]
    exact hend

theorem weight_le (token : Token) : weight token ≤ 1 := by
  unfold weight
  split
  all_goals decide

/-- Every run ends, with a result or a diagnostic.  No fetch is made with the end of the input in
hand, and there are no more fetches than two and the characters that are left at the beginning; the
source is behind as many answers.  If a text is accepted, the translator has taken two answers and
the run makes as many fetches as there are tokens, and at the end it has the end of the input in
hand twice. -/
theorem run_fetches :
    (∀ (r : Translator) (s : Source) (l : Listing), ∃ fetches,
      Course (start r s l) fetches (translate r s l) ∧
        fetches.length ≤ 2 + s.left.length ∧ (∀ t ∈ fetches, t.current.kind ≠ .endOfInput) ∧
        (translate r s l).2.source = s.after fetches.length) ∧
    ∀ {filename text : String} {c : Compiled}, compile filename text = .ok c →
      ∃ r behind answers t fetches,
        Translator.start (.ofString filename text) = (.ok r, behind) ∧
        Translator.Opening (.ofString filename text) answers (.ok r, behind) ∧
        Course (start r behind .empty) fetches (none, t) ∧ c = .ofTranslation filename t ∧
        answers.length = 2 ∧ answers.length + fetches.length = c.tokenCount + 2 ∧
        t.current.kind = .endOfInput ∧ t.upcoming.kind = .endOfInput := by
  refine ⟨fun r s l => ?_, fun {filename text c} h => ?_⟩
  · obtain ⟨fetches, hcourse⟩ := (start r s l).exists_course
    refine ⟨fetches, hcourse, hcourse.length_le.trans ?_, hcourse.kind_ne, hcourse.source_eq⟩
    have hcurrent := weight_le r.current
    have hupcoming := weight_le r.upcoming
    show weight r.current + weight r.upcoming + s.left.length ≤ _
    omega
  · obtain ⟨r, _, t, hstart, htranslate, rfl⟩ := exists_translate_of_compile h
    obtain ⟨hopening, rfl, hcurrent, hupcoming⟩ := Translator.opening_of_start hstart
    obtain ⟨fetches, hcourse⟩ := exists_course (start r _ .empty)
    rw [← translate, htranslate] at hcourse
    obtain ⟨hproduced, hends⟩ := hcourse.produced_eq hcurrent hupcoming
    refine ⟨r, _, _, t, fetches, hstart, hopening, hcourse, rfl, rfl, ?_, hends⟩
    have htokens : t.source.produced = fetches.length := hproduced.trans (Nat.zero_add _)
    exact (Nat.add_comm _ _).trans (congrArg (· + 2) htokens.symm)

/-- A text with a block in it, which is read to its end. -/
theorem run_fetches_open_block :
    ∃ c, compile "b.tt" "WHILE 1 < 2 REPEAT\nPRINT \"x\"\nENDWHILE" = .ok c ∧
      ∃ r behind answers t fetches,
        Translator.start (.ofString "b.tt" "WHILE 1 < 2 REPEAT\nPRINT \"x\"\nENDWHILE") =
          (.ok r, behind) ∧
        Translator.Opening (.ofString "b.tt" "WHILE 1 < 2 REPEAT\nPRINT \"x\"\nENDWHILE") answers
          (.ok r, behind) ∧
        Course (start r behind .empty) fetches (none, t) ∧ c = .ofTranslation "b.tt" t ∧
        answers.length = 2 ∧ answers.length + fetches.length = 13 ∧
        t.current.kind = .endOfInput ∧ t.upcoming.kind = .endOfInput := by
  have hcompile : compile "b.tt" "WHILE 1 < 2 REPEAT\nPRINT \"x\"\nENDWHILE" = .ok
      ⟨"b.tt", "#include <stdio.h>\nint main(void)\x7b\nwhile(1<2)\x7b\nprintf(\"x\\n\");\n\x7d\n" ++
        "return 0;\n\x7d\n", 11, [], [], none⟩ := by
    cbv
  exact ⟨_, hcompile, run_fetches.2 hcompile⟩

end Translation
end PocketBasic

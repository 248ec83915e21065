import PocketBasic.Proofs.Lexing.Answers
import PocketBasic.Translation

/-!
# Where a step leads

A step leads somewhere whether it fails or not: a translation that stops in the middle of a token
keeps what the moments before have done to it.  `Translation.Reached` says once where a step can
lead.  The draft is settled or concluded before the fetch, it is written into when the fetch is
made, and it is finished only if the fetch has brought a token.

Main statements: a step leads to one of these places (`Translation.reached_step`), so what they
all keep is kept by a run, however it ends (`Translation.run_preserves`).
-/

namespace PocketBasic

/-- The translation that a step leads to. -/
def Step.reached : Step → Translation
  | .running t => t
  | .complete t => t
  | .failed _ t => t

/-- A translator is started on the first two answers of a source.  If one of them is a fault, there
is none, and the source is behind that answer. -/
theorem Translator.start_cases (s : Source) :
    (∃ d n, Translator.start s = (.error d, s.after n)) ∨
      ∃ current upcoming, Translator.start s = (.ok ⟨current, upcoming, .empty⟩, s.after 2) ∧
        s.answer 0 = .ok current ∧ s.answer 1 = .ok upcoming := by
  unfold Translator.start
  split
  · rename_i d behind hfirst
    exact .inl ⟨d, 1, by rw [Source.after, Source.after, hfirst]⟩
  · rename_i current behind hfirst
    obtain rfl : behind = s.after 1 := by rw [Source.after, Source.after, hfirst]
    split
    · rename_i d behind hsecond
      exact .inl ⟨d, 2, by rw [Source.after, hsecond]⟩
    · rename_i upcoming behind hsecond
      refine .inr ⟨current, upcoming, ?_, ?_, ?_⟩
      · rw [Source.after, hsecond]
      · rw [Source.answer, Source.after, hfirst]
      · rw [Source.answer, hsecond]

namespace Translation

/-- The draft that the token to be read next is checked in. -/
def settled (t : Translation) : Draft := t.toDraft.settle t.current.kind

/-- A translation that has written the token in hand and is about to fetch another one. -/
def written (t : Translation) : Translation := t.withDraft (t.settled.write t.current)

/-- A translation that has written the token to be read next and fetched another one, or has met
a fault in the attempt. -/
def fetched (t : Translation) : Translation := ((t.withDraft (t.settled.write t.current)).fetch).2

/-! ## What a step does -/

theorem step_of_complete {t : Translation} (h : t.settled.check t.current = .complete) :
    t.step = t.conclude t.settled := by
  unfold step
  dsimp only
  rw [← settled, h]

theorem step_of_refused {t : Translation} {cause : Cause}
    (h : t.settled.check t.current = .refused cause) :
    t.step = .failed (t.diagnose cause t.current.location) (t.withDraft t.settled) := by
  unfold step
  dsimp only
  rw [← settled, h]

theorem step_of_passed {t : Translation} {next : Control}
    (h : t.settled.check t.current = .passed next) :
    t.step = t.consume t.settled next := by
  unfold step
  dsimp only
  rw [← settled, h]

theorem source_fetch (t : Translation) : t.fetch.2.source = t.source.next.2 := by
  unfold fetch
  split
  all_goals
    rename_i hnext
    rw [hnext]

/-- A fetch leaves the draft as it is. -/
theorem toDraft_fetch (t : Translation) : t.fetch.2.toDraft = t.toDraft := by
  unfold fetch
  split <;> rfl

/-! ## Where a step leads -/

/-- Where one step can lead. -/
inductive Reached (t : Translation) : Translation → Prop where
  /-- The token is refused, or the program is complete and a jump in it leads nowhere. -/
  | settled : Reached t (t.withDraft t.settled)
  /-- The program is complete. -/
  | concluded {d : Draft} (h : t.settled.conclude = .ok d) : Reached t (t.withDraft d)
  /-- The token has passed, and there is a fault behind it or in what it declares. -/
  | fetched : Reached t t.fetched
  /-- The token is read over. -/
  | finished {next : Control} {d : Draft}
    (h : (t.settled.write t.current).finish t.current next = .ok d) :
    Reached t (t.fetched.withDraft d)

theorem reached_consume (t : Translation) (next : Control) :
    Reached t (t.consume t.settled next).reached := by
  unfold consume
  split
  · rename_i fault u hfetch
    have hu : u = t.fetched := by rw [fetched, hfetch]
    rw [hu]
    exact .fetched
  · rename_i u hfetch
    have hu : u = t.fetched := by rw [fetched, hfetch]
    have hdraft : u.toDraft = t.settled.write t.current := by
      rw [hu]
      exact toDraft_fetch _
    rw [hdraft, hu]
    cases hfinish : (t.settled.write t.current).finish t.current next with
    | error fault => exact .fetched
    | ok d => exact .finished hfinish

theorem reached_conclude (t : Translation) : Reached t (t.conclude t.settled).reached := by
  unfold conclude
  cases h : t.settled.conclude with
  | error jump => exact .settled
  | ok d => exact .concluded h

/-- A step leads where it can lead. -/
theorem reached_step (t : Translation) : Reached t t.step.reached := by
  unfold step
  dsimp only
  split
  · exact t.reached_conclude
  · exact .settled
  · rename_i next _
    exact t.reached_consume next

/-! ## Runs -/

theorem run_of_running {t u : Translation} (h : t.step = .running u) : t.run = u.run := by
  rw [run]
  split <;> rename_i hstep <;> rw [h] at hstep <;> cases hstep
  rfl

theorem run_of_complete {t u : Translation} (h : t.step = .complete u) : t.run = (none, u) := by
  rw [run]
  split <;> rename_i hstep <;> rw [h] at hstep <;> cases hstep
  rfl

theorem run_of_failed {d : Diagnostic} {t u : Translation} (h : t.step = .failed d u) :
    t.run = (some d, u) := by
  rw [run]
  split <;> rename_i hstep <;> rw [h] at hstep <;> cases hstep
  rfl

/-- A run is known from its first step. -/
theorem run_of_step_eq {t u : Translation} (h : t.step = u.step) : t.run = u.run := by
  cases hstep : u.step with
  | running v => rw [run_of_running hstep, run_of_running (h.trans hstep)]
  | complete v => rw [run_of_complete hstep, run_of_complete (h.trans hstep)]
  | failed d v => rw [run_of_failed hstep, run_of_failed (h.trans hstep)]

/-- What every step keeps is kept by a run, however it ends. -/
theorem run_preserves {P : Translation → Prop} (hstep : ∀ t, P t → P t.step.reached)
    {t : Translation} (h : P t) : P t.run.2 := by
  have hreached := hstep t h
  induction t using run.induct with
  | case1 t next hrunning ih =>
    rw [hrunning] at hreached
    rw [run_of_running hrunning]
    exact ih hreached (hstep next hreached)
  | case2 t done hcomplete =>
    rw [hcomplete] at hreached
    rw [run_of_complete hcomplete]
    exact hreached
  | case3 t d stopped hfailed =>
    rw [hfailed] at hreached
    rw [run_of_failed hfailed]
    exact hreached

end Translation
end PocketBasic

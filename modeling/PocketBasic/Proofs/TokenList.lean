import PocketBasic.Compilation
import PocketBasic.Proofs.Grammar.Reactions
import PocketBasic.Proofs.Lexing.Answers
import PocketBasic.Proofs.Translation.Steps

/-!
# Translating a list of tokens

A translation fetches its tokens one by one and deals with one of them between two
fetches.  What it comes to can be said without any fetching: take all tokens of the
text, up to the end of the input or the first lexical fault, and deal with them in
order (`Draft.translate`).

Only one thing is left of the fetching.  When a token passes its checks, the token two
places behind it is fetched, and if the list is too short for that and a lexical fault
ended it, that fault is what the translation comes to.  So a lexical fault behind `k`
tokens hides everything that comes after the checks of token `k - 2`.

Main statement: `compile_eq`, which says all of `compile` in terms of the list.
-/

namespace PocketBasic

/-! ## The list of tokens -/

/-- The fault that is met on the way to the token two places behind the present one, if
the given tokens are behind the present one and a fault may have ended their list. -/
def fetchFault (failure : Option Diagnostic) (behind : List Token) : Option Diagnostic :=
  if behind.length < 2 then failure else none

/-- A fault of a place in the text of a source, with the line there. -/
def Source.report (s : Source) (cause : Cause) (place : Location) : Diagnostic :=
  ⟨cause, some place, s.line? place.line⟩

/-- A fault that is met on the way to a token is the answer behind the last token. -/
theorem Source.answer_of_fetchFault {s : Source} {n : Nat} {fault : Diagnostic}
    (h : fetchFault s.tokenize.failure (s.tokenize.tokens.drop n) = some fault) :
    s.tokenize.tokens.length < n + 2 ∧ s.answer s.tokenize.tokens.length = .error fault := by
  rw [fetchFault, List.length_drop] at h
  split at h
  · exact ⟨by omega, (Source.answer_of_failure h).1⟩
  · cases h

/-- If no fault is met on the way to a token, that token is there, or the end of the input
in its place. -/
theorem Source.answer_of_fetchFault_eq_none {s : Source} {n : Nat}
    (h : fetchFault s.tokenize.failure (s.tokenize.tokens.drop n) = none) {i : Nat}
    (hi : i < n + 2) : ∃ token, s.answer i = .ok token := by
  by_cases hlt : i < s.tokenize.tokens.length
  · exact ⟨_, s.answer_of_lt hlt⟩
  · rw [fetchFault, List.length_drop, if_pos (by omega)] at h
    obtain ⟨front, last, htokens, -, -, hrepeat⟩ := Source.answer_of_clean h
    have hl := congrArg List.length htokens
    rw [List.length_append, List.length_singleton] at hl
    exact ⟨last, hrepeat i (by omega)⟩

namespace Draft

/-- The token that completes a program is the end of the input. -/
theorem kind_of_check_complete {d : Draft} {token : Token} (h : d.check token = .complete) :
    token.kind = .endOfInput := by
  unfold check at h
  split at h
  · rename_i hreact
    exact (Control.reactSettled_eq_complete_iff.mp hreact).2.1
  · cases h
  · split at h <;> cases h

/-- What a draft comes to when a list of tokens is dealt with.  A fault may have ended the
list, and other faults are reported as `report` says. -/
def translate (failure : Option Diagnostic) (report : Cause → Location → Diagnostic) :
    List Token → Draft → Except Diagnostic Draft
  | [], d => .ok d
  | token :: behind, d =>
    let settled := d.settle token.kind
    match settled.check token with
    | .complete => settled.conclude.mapError fun jump =>
        report (.naming (.undeclaredLabel jump.1)) jump.2
    | .refused cause => .error (report cause token.location)
    | .passed next =>
      match fetchFault failure behind with
      | some fault => .error fault
      | none =>
        match (settled.write token).finish token next with
        | .error fault => .error (report (.naming fault) token.location)
        | .ok finished => translate failure report behind finished

end Draft

/-- What the text of a source is translated to, in terms of the list of its tokens. -/
def Source.draft (s : Source) : Except Diagnostic Draft :=
  match fetchFault s.tokenize.failure s.tokenize.tokens with
  | some fault => .error fault
  | none => Draft.translate s.tokenize.failure s.report s.tokenize.tokens (.start .empty .empty)

/-- What a draft comes to when the tokens of a source are dealt with, from the one with a given
number on. -/
def Source.translateFrom (s : Source) (n : Nat) (d : Draft) : Except Diagnostic Draft :=
  Draft.translate s.tokenize.failure s.report (s.tokenize.tokens.drop n) d

namespace Translation

variable {s : Source} {n : Nat} {t : Translation}

/-- A translation that has fetched two more tokens of a source than it has dealt with. -/
structure InStep (s : Source) (n : Nat) (t : Translation) : Prop where
  current : s.answer n = .ok t.current
  upcoming : s.answer (n + 1) = .ok t.upcoming
  source : t.source = s.after (n + 2)

theorem InStep.withDraft (h : InStep s n t) (d : Draft) : InStep s n (t.withDraft d) :=
  ⟨h.current, h.upcoming, h.source⟩

theorem InStep.diagnose (h : InStep s n t) : t.diagnose = s.report := by
  funext cause place
  rw [Translation.diagnose, h.source, Source.line?_after]
  rfl

/-- The token in hand is the next one of the list. -/
theorem InStep.tokens_drop (h : InStep s n t) (hn : n < s.tokenize.tokens.length) :
    s.tokenize.tokens.drop n = t.current :: s.tokenize.tokens.drop (n + 1) := by
  rw [List.drop_eq_getElem_cons hn]
  have hcurrent := h.current
  rw [s.answer_of_lt hn] at hcurrent
  rw [Except.ok.inj hcurrent]

/-- A token that is not the end of the input has another one behind it, which is in hand. -/
theorem InStep.succ_lt (h : InStep s n t) (hn : n < s.tokenize.tokens.length)
    (hk : t.current.kind ≠ .endOfInput) : n + 1 < s.tokenize.tokens.length := by
  by_contra hge
  have hlength : s.tokenize.tokens.length = n + 1 := by omega
  cases hfailure : s.tokenize.failure with
  | some fault =>
    have hanswer := (Source.answer_of_failure hfailure).1
    rw [hlength, h.upcoming] at hanswer
    cases hanswer
  | none =>
    obtain ⟨front, last, htokens, hlast, -, hrepeat⟩ := Source.answer_of_clean hfailure
    have hfront : front.length = n := by
      have hl := congrArg List.length htokens
      rw [hlength, List.length_append, List.length_singleton] at hl
      omega
    have hcurrent := hrepeat n (by omega)
    rw [h.current] at hcurrent
    rw [Except.ok.inj hcurrent] at hk
    exact hk hlast

/-- What a fetch meets: the fault that ended the list, if the list is too short, and else
the translation stays in step. -/
theorem InStep.fetch (h : InStep s n t) (hn : n < s.tokenize.tokens.length)
    (hk : t.current.kind ≠ .endOfInput) :
    match fetchFault s.tokenize.failure (s.tokenize.tokens.drop (n + 1)) with
    | some fault => ∃ u, t.fetch = (some fault, u)
    | none => ∃ u, t.fetch = (none, u) ∧ InStep s (n + 1) u ∧ u.toDraft = t.toDraft := by
  have hnext : t.source.next = (s.answer (n + 2), s.after (n + 3)) := by
    rw [h.source]
    rfl
  split
  · rename_i fault hfault
    obtain ⟨hlength, hanswer⟩ := Source.answer_of_fetchFault hfault
    have hlt := h.succ_lt hn hk
    rw [show s.tokenize.tokens.length = n + 2 by omega] at hanswer
    refine ⟨{ t with source := s.after (n + 3), current := t.upcoming }, ?_⟩
    rw [Translation.fetch, hnext, hanswer]
  · rename_i hnone
    obtain ⟨token, htoken⟩ := Source.answer_of_fetchFault_eq_none hnone (Nat.lt_succ_self (n + 2))
    refine ⟨{ t with source := s.after (n + 3), current := t.upcoming, upcoming := token },
      ?_, ⟨h.upcoming, htoken, rfl⟩, rfl⟩
    rw [Translation.fetch, hnext, htoken]

/-- What comes of one step: it fails as the rest of the list does, or it completes the program
at the end of the input, or it leads on to the next token. -/
theorem InStep.step_cases (h : InStep s n t) (hn : n < s.tokenize.tokens.length) :
    (∃ fault u, t.step = .failed fault u ∧ s.translateFrom n t.toDraft = .error fault) ∨
    (∃ u, t.step = .complete u ∧ InStep s n u ∧ u.current.kind = .endOfInput ∧
      s.translateFrom n t.toDraft = .ok u.toDraft) ∨
    (∃ u, t.step = .running u ∧ InStep s (n + 1) u ∧ n + 1 < s.tokenize.tokens.length ∧
      s.translateFrom n t.toDraft = s.translateFrom (n + 1) u.toDraft) := by
  rw [Source.translateFrom, h.tokens_drop hn, Draft.translate, Translation.step]
  cases hcheck : (t.settle t.current.kind).check t.current with
  | complete =>
    dsimp only [Translation.conclude]
    rw [h.diagnose]
    cases (t.settle t.current.kind).conclude with
    | error jump => exact .inl ⟨_, _, rfl, rfl⟩
    | ok d => exact .inr (.inl ⟨_, rfl, h.withDraft d, Draft.kind_of_check_complete hcheck, rfl⟩)
  | refused cause =>
    dsimp only
    rw [h.diagnose]
    exact .inl ⟨_, _, rfl, rfl⟩
  | passed next =>
    have hk := kind_ne_of_check_passed hcheck
    have hfetch := (h.withDraft ((t.settle t.current.kind).write t.current)).fetch hn hk
    dsimp only [Translation.consume]
    split at hfetch
    · obtain ⟨u, hu⟩ := hfetch
      rw [hu]
      exact .inl ⟨_, _, rfl, rfl⟩
    · obtain ⟨u, hu, hin, hdraft⟩ := hfetch
      have hwritten : u.toDraft = (t.settle t.current.kind).write t.current := hdraft
      rw [hu, h.diagnose]
      dsimp only
      rw [hwritten]
      cases ((t.settle t.current.kind).write t.current).finish t.current next with
      | error fault => exact .inl ⟨_, _, rfl, rfl⟩
      | ok finished => exact .inr (.inr ⟨_, rfl, hin.withDraft finished, h.succ_lt hn hk, rfl⟩)

/-- What comes of a run: it fails as the rest of the list does, or it ends with the end of the
input in hand and with the draft that the rest of the list comes to. -/
theorem InStep.run_cases (h : InStep s n t) (hn : n < s.tokenize.tokens.length) :
    (∃ fault u, t.run = (some fault, u) ∧ s.translateFrom n t.toDraft = .error fault) ∨
    ∃ m u, t.run = (none, u) ∧ m < s.tokenize.tokens.length ∧ InStep s m u ∧
      u.current.kind = .endOfInput ∧ s.translateFrom n t.toDraft = .ok u.toDraft := by
  induction hpending : t.pending using Nat.strongRecOn generalizing t n with
  | ind pending ih =>
    rcases h.step_cases hn with
      ⟨fault, u, hu, htranslate⟩ | ⟨u, hu, hin, hk, htranslate⟩ | ⟨u, hu, hin, hlt, htranslate⟩
    · exact .inl ⟨fault, u, run_of_failed hu, htranslate⟩
    · exact .inr ⟨n, u, run_of_complete hu, hn, hin, hk, htranslate⟩
    · rw [run_of_running hu, htranslate]
      have hless : u.pending < pending := by
        rw [← hpending]
        exact pending_step_lt hu
      exact ih _ hless hin hlt rfl

end Translation

/-! ## Compiling in terms of the list -/

/-- The result of a draft that was translated from the tokens of a source. -/
def Source.compiled (s : Source) (d : Draft) : Compiled where
  filename := s.filename
  code := d.listing.render
  tokenCount := s.tokenize.tokens.length - 1
  variableNames := d.names.sortedVariables
  labels := d.names.labels.map Prod.fst
  outputPath := none

/-- A fault that ends the list before its second token keeps a translator from
beginning. -/
theorem Translator.start_eq_error {s : Source} {fault : Diagnostic}
    (h : fetchFault s.tokenize.failure s.tokenize.tokens = some fault) :
    (Translator.start s).1 = .error fault := by
  obtain ⟨hlength, hanswer⟩ := Source.answer_of_fetchFault (n := 0) h
  rw [Translator.start]
  rcases Nat.lt_or_ge 0 s.tokenize.tokens.length with hpos | hzero
  · have hone : s.tokenize.tokens.length = 1 := by omega
    rw [hone] at hanswer
    have hfirst : s.next = (.ok s.tokenize.tokens[0], s.after 1) :=
      Prod.ext (s.answer_of_lt hpos) rfl
    have hsecond : (s.after 1).next = (.error fault, s.after 2) := Prod.ext hanswer rfl
    rw [hfirst]
    simp only [hsecond]
  · rw [show s.tokenize.tokens.length = 0 by omega] at hanswer
    have hfirst : s.next = (.error fault, s.after 1) := Prod.ext hanswer rfl
    rw [hfirst]

/-- A translator that begins has the first two tokens of the source in hand. -/
theorem Translator.start_eq_ok {s : Source}
    (h : fetchFault s.tokenize.failure s.tokenize.tokens = none) :
    ∃ current upcoming, Translator.start s = (.ok ⟨current, upcoming, .empty⟩, s.after 2) ∧
      s.answer 0 = .ok current ∧ s.answer 1 = .ok upcoming := by
  obtain ⟨current, hcurrent⟩ := Source.answer_of_fetchFault_eq_none (n := 0) (i := 0) h (by omega)
  obtain ⟨upcoming, hupcoming⟩ :=
    Source.answer_of_fetchFault_eq_none (n := 0) (i := 1) h (by omega)
  refine ⟨current, upcoming, ?_, hcurrent, hupcoming⟩
  have hfirst : s.next = (.ok current, s.after 1) := Prod.ext hcurrent rfl
  have hsecond : (s.after 1).next = (.ok upcoming, s.after 2) := Prod.ext hupcoming rfl
  rw [Translator.start, hfirst]
  simp only [hsecond]

/-- A source is never without a token. -/
theorem Source.tokens_ne_nil {s : Source}
    (h : fetchFault s.tokenize.failure s.tokenize.tokens = none) : 0 < s.tokenize.tokens.length := by
  by_contra hzero
  rw [fetchFault, if_pos (by omega)] at h
  obtain ⟨front, last, htokens, -⟩ := Source.answer_of_clean h
  rw [htokens, List.length_append, List.length_singleton] at hzero
  omega

/-- The end of the input stands last in the list, and a source that has handed it out has
counted all tokens before it. -/
theorem Translation.InStep.produced {s : Source} {n : Nat} {t : Translation} (h : InStep s n t)
    (hn : n < s.tokenize.tokens.length) (hk : t.current.kind = .endOfInput) :
    t.source.produced = s.produced + (s.tokenize.tokens.length - 1) := by
  have hcurrent := h.current
  rw [s.answer_of_lt hn] at hcurrent
  have htoken : s.tokenize.tokens[n].kind = .endOfInput := by rw [Except.ok.inj hcurrent, hk]
  cases hfailure : s.tokenize.failure with
  | some fault =>
    exact absurd htoken ((Source.answer_of_failure hfailure).2 _ (List.getElem_mem hn))
  | none =>
    obtain ⟨front, last, htokens, hlast, hfront, hrepeat⟩ := Source.answer_of_clean hfailure
    have hlength : s.tokenize.tokens.length = front.length + 1 := by
      rw [htokens, List.length_append, List.length_singleton]
    have hn' : n = front.length := by
      by_contra hne
      have hlt : n < front.length := by omega
      have hmem : s.tokenize.tokens[n] = front[n] := by simp only [htokens, List.getElem_append_left hlt]
      exact hfront _ (List.getElem_mem hlt) (hmem ▸ htoken)
    have hcount : ∀ i < n, Source.countOf (s.answer i) = 1 := by
      intro i hi
      have hi' : i < front.length := by omega
      have hlt : i < s.tokenize.tokens.length := by omega
      have hget : s.tokenize.tokens[i] = front[i] := by
        simp only [htokens, List.getElem_append_left hi']
      rw [s.answer_of_lt hlt, hget, Source.countOf,
        if_neg (hfront _ (List.getElem_mem hi'))]
    have hzero : ∀ i, n ≤ i → Source.countOf (s.after i).next.1 = 0 := by
      intro i hi
      show Source.countOf (s.answer i) = 0
      rw [hrepeat i (by omega), Source.countOf, if_pos hlast]
    calc t.source.produced = (s.after (n + 2)).produced := by rw [h.source]
      _ = (s.after n).produced := by
        rw [Source.after, Source.produced_next, hzero (n + 1) (by omega), Source.after,
          Source.produced_next, hzero n (Nat.le_refl n), Nat.add_zero]
      _ = s.produced + (s.tokenize.tokens.length - 1) := by
        rw [Source.produced_after hcount, hlength, hn', Nat.add_sub_cancel]

/-- Translating a text is translating the list of its tokens.  A translation that comes to its end
has counted all tokens before the end of the input. -/
theorem translateText_cases (filename text : String) :
    (∃ fault, (translateText filename text).result = .error fault ∧
      (Source.ofString filename text).draft = .error fault) ∨
    ∃ t, (translateText filename text).result = .ok t ∧
      (Source.ofString filename text).draft = .ok t.toDraft ∧
      t.source.produced = (Source.ofString filename text).tokenize.tokens.length - 1 := by
  generalize hs : Source.ofString filename text = s
  have hproduced : s.produced = 0 := by rw [← hs]; rfl
  rw [translateText, hs, Source.draft]
  cases hfetch : fetchFault s.tokenize.failure s.tokenize.tokens with
  | some fault =>
    have hstart := Translator.start_eq_error hfetch
    split
    · rename_i d s' hd
      rw [hd] at hstart
      obtain rfl := Except.error.inj hstart
      exact .inl ⟨_, rfl, rfl⟩
    · rename_i translator s' hok
      rw [hok] at hstart
      cases hstart
  | none =>
    obtain ⟨current, upcoming, hstart, hcurrent, hupcoming⟩ := Translator.start_eq_ok hfetch
    have hin : Translation.InStep s 0 (.start ⟨current, upcoming, .empty⟩ (s.after 2) .empty) :=
      ⟨hcurrent, hupcoming, rfl⟩
    rw [hstart]
    dsimp only [Translation.translate]
    rcases hin.run_cases (Source.tokens_ne_nil hfetch) with
      ⟨fault, u, hrun, htranslate⟩ | ⟨m, u, hrun, hm, hlast, hk, htranslate⟩
    · rw [hrun]
      rw [Source.translateFrom, List.drop_zero] at htranslate
      exact .inl ⟨fault, rfl, htranslate⟩
    · rw [hrun]
      rw [Source.translateFrom, List.drop_zero] at htranslate
      have hcount := hlast.produced hm hk
      rw [hproduced, Nat.zero_add] at hcount
      exact .inr ⟨u, rfl, htranslate, hcount⟩

/-- Compiling a text is translating the list of its tokens. -/
theorem compile_eq (filename text : String) :
    compile filename text =
      (Source.ofString filename text).draft.map (Source.ofString filename text).compiled := by
  rw [compile]
  rcases translateText_cases filename text with
    ⟨fault, hresult, hdraft⟩ | ⟨t, hresult, hdraft, hcount⟩
  · rw [hresult, hdraft]
    rfl
  · rw [hresult, hdraft]
    show Except.ok (Compiled.ofTranslation filename t) =
      Except.ok ((Source.ofString filename text).compiled t.toDraft)
    rw [Compiled.ofTranslation, Source.compiled, hcount]
    rfl

end PocketBasic

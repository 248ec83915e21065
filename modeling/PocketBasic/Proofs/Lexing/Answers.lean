import PocketBasic.Proofs.Lexing.Spelling

/-!
# The answers of a source

A source that is asked for tokens again and again gives a sequence of answers without
end: first its tokens, and then either a fault and what comes behind it, or the end of
the input for ever.  `Source.answer` is this sequence.  Reading all tokens at once
(`Source.tokenize`) shows its beginning: answer `i` is token `i`
(`answer_of_lt`), the answer behind the last token is the fault that ended the reading
(`answer_of_failure`), and if there is none, every later answer repeats the last token,
which is the end of the input (`answer_of_clean`).

Answers are counted from nought.  The sequence is what ties a reader that fetches one
token at a time to the list of all tokens.
-/

namespace PocketBasic
namespace Source

/-- The source behind a number of answers. -/
def after (s : Source) : Nat → Source
  | 0 => s
  | n + 1 => (s.after n).next.2

/-- The answer with a number. -/
def answer (s : Source) (n : Nat) : Except Diagnostic Token := (s.after n).next.1

theorem after_next (s : Source) (n : Nat) : s.next.2.after n = s.after (n + 1) := by
  induction n with
  | zero => rfl
  | succ n ih =>
    rw [after, ih]
    rfl

theorem after_after (s : Source) (m n : Nat) : (s.after m).after n = s.after (m + n) := by
  induction n with
  | zero => rfl
  | succ n ih =>
    rw [after, ih]
    rfl

theorem answer_after (s : Source) (m n : Nat) : (s.after m).answer n = s.answer (m + n) := by
  rw [answer, after_after, answer]

theorem answer_next (s : Source) (n : Nat) : s.next.2.answer n = s.answer (n + 1) := by
  rw [answer, after_next, answer]

/-! ## What no answer changes -/

/-- Answers change neither the text nor its name. -/
theorem next_text (s : Source) : s.next.2.text = s.text ∧ s.next.2.filename = s.filename := by
  unfold next
  dsimp only
  split
  · exact ⟨rfl, rfl⟩
  · split <;> exact ⟨rfl, rfl⟩

@[simp] theorem after_text (s : Source) (n : Nat) : (s.after n).text = s.text := by
  induction n with
  | zero => rfl
  | succ n ih => rw [after, (next_text _).1, ih]

@[simp] theorem after_filename (s : Source) (n : Nat) : (s.after n).filename = s.filename := by
  induction n with
  | zero => rfl
  | succ n ih => rw [after, (next_text _).2, ih]

@[simp] theorem line?_after (s : Source) (n : Nat) (number : Int) :
    (s.after n).line? number = s.line? number := by
  unfold line?
  rw [after_text]

/-! ## The count of tokens -/

/-- Whether an answer is a token other than the end of the input, as a number. -/
def countOf : Except Diagnostic Token → Nat
  | .ok t => if t.kind = .endOfInput then 0 else 1
  | .error _ => 0

/-- A source counts the tokens that it hands out. -/
theorem produced_next (s : Source) : s.next.2.produced = s.produced + countOf s.next.1 := by
  unfold next
  dsimp only
  split
  · rfl
  · split
    · rename_i hread
      rw [countOf, if_neg (Lexeme.kind_ne_endOfInput hread)]
    · rfl

/-! ## The end of the input -/

/-- The end of the input is where a source stops: asking again gives the same answer and
leaves the source as it is. -/
theorem next_of_endOfInput {s : Source} {t : Token} (h : s.next.1 = .ok t)
    (hk : t.kind = .endOfInput) : s.next.2.next = (.ok t, s.next.2) := by
  unfold next at h
  dsimp only at h
  split at h
  · rename_i hrest
    obtain rfl := Except.ok.inj h
    have hskip : s.cursor.skipLayout.skipLayout = s.cursor.skipLayout :=
      Cursor.skipLayout_of_rest_nil hrest
    have hnext : s.next.2 = { s with cursor := s.cursor.skipLayout } := by
      unfold next
      simp only [hrest]
    rw [hnext]
    unfold next
    simp only [hskip, hrest]
    rfl
  · split at h
    · rename_i hread
      obtain rfl := Except.ok.inj h
      exact absurd hk (Lexeme.kind_ne_endOfInput hread)
    · cases h

/-- Behind the end of the input every answer is the end of the input. -/
theorem answer_of_endOfInput {s : Source} {t : Token} (h : s.next.1 = .ok t)
    (hk : t.kind = .endOfInput) (n : Nat) : s.answer n = .ok t ∧ s.after (n + 1) = s.next.2 := by
  induction n with
  | zero => exact ⟨h, rfl⟩
  | succ n ih =>
    have hstop := next_of_endOfInput h hk
    refine ⟨?_, ?_⟩
    · rw [answer, ih.2, hstop]
    · rw [after, ih.2, hstop]

/-! ## The answers and the list of tokens -/

/-- The answers of a source begin with its tokens. -/
theorem answer_of_lt (s : Source) {i : Nat} (h : i < s.tokenize.tokens.length) :
    s.answer i = .ok s.tokenize.tokens[i] := by
  fun_induction tokenize s generalizing i with
  | case1 s failure s' hnext => simp at h
  | case2 s token s' hnext hk =>
    obtain rfl : i = 0 := by simpa using h
    rw [answer, after, hnext]
    rfl
  | case3 s token s' hnext hk later =>
    rename_i ih
    cases i with
    | zero =>
      rw [answer, after, hnext]
      rfl
    | succ i =>
      have hs' : s' = s.next.2 := by rw [hnext]
      rw [← answer_next, ← hs', ih (by simpa using h)]
      rfl

/-- The answer behind the last token is the fault that ended the reading, and none of the
tokens before it is the end of the input. -/
theorem answer_of_failure {s : Source} {d : Diagnostic} (h : s.tokenize.failure = some d) :
    s.answer s.tokenize.tokens.length = .error d ∧
      ∀ t ∈ s.tokenize.tokens, t.kind ≠ .endOfInput := by
  fun_induction tokenize s with
  | case1 s failure s' hnext =>
    obtain rfl := Option.some.inj h
    refine ⟨?_, by simp⟩
    rw [List.length_nil, answer, after, hnext]
  | case2 s token s' hnext hk => cases h
  | case3 s token s' hnext hk later ih =>
    have hs' : s' = s.next.2 := by rw [hnext]
    obtain ⟨hanswer, hne⟩ := ih h
    refine ⟨?_, ?_⟩
    · rw [List.length_cons, ← answer_next, ← hs', hanswer]
    · intro t ht
      rcases List.mem_cons.mp ht with rfl | ht
      · exact hk
      · exact hne t ht

/-- What stands in the place of a token is a lexical fault. -/
theorem cause_of_next {s : Source} {d : Diagnostic} (h : s.next.1 = .error d) :
    ∃ fault, d.cause = .lexical fault := by
  unfold next at h
  dsimp only at h
  split at h
  · cases h
  · split at h
    · cases h
    · rename_i fault _
      obtain rfl := Except.error.inj h
      exact ⟨fault, rfl⟩

/-- The fault that ends the reading is a lexical one. -/
theorem cause_of_failure {s : Source} {d : Diagnostic} (h : s.tokenize.failure = some d) :
    ∃ fault, d.cause = .lexical fault :=
  cause_of_next (answer_of_failure h).1

/-- If no fault ends the reading, the tokens end with the end of the input, which every
later answer repeats. -/
theorem answer_of_clean {s : Source} (h : s.tokenize.failure = none) :
    ∃ front last, s.tokenize.tokens = front ++ [last] ∧ last.kind = .endOfInput ∧
      (∀ t ∈ front, t.kind ≠ .endOfInput) ∧ ∀ i, front.length ≤ i → s.answer i = .ok last := by
  fun_induction tokenize s with
  | case1 s failure s' hnext => cases h
  | case2 s token s' hnext hk =>
    have hfirst : s.next.1 = .ok token := by rw [hnext]
    exact ⟨[], token, rfl, hk, by simp, fun i _ => (answer_of_endOfInput hfirst hk i).1⟩
  | case3 s token s' hnext hk later ih =>
    have hs' : s' = s.next.2 := by rw [hnext]
    obtain ⟨front, last, htokens, hlast, hfront, hrepeat⟩ := ih h
    refine ⟨token :: front, last, ?_, hlast, ?_, ?_⟩
    · show token :: s'.tokenize.tokens = token :: front ++ [last]
      rw [htokens, List.cons_append]
    · intro t ht
      rcases List.mem_cons.mp ht with rfl | ht
      · exact hk
      · exact hfront t ht
    · intro i hi
      rw [List.length_cons] at hi
      obtain ⟨j, rfl⟩ : ∃ j, i = j + 1 := ⟨i - 1, by omega⟩
      rw [← answer_next, ← hs', hrepeat j (by omega)]

/-- All tokens of a source are spelled as their kinds are. -/
theorem spells_of_mem_tokens {s : Source} {t : Token} (h : t ∈ s.tokenize.tokens) :
    t.kind.Spells t.text := by
  obtain ⟨i, hi, rfl⟩ := List.mem_iff_getElem.mp h
  exact spells_of_next (s.answer_of_lt hi)

/-- Behind the tokens that it handed out, a source has counted those that are not the end
of the input. -/
theorem produced_after {s : Source} {n : Nat} (h : ∀ i < n, countOf (s.answer i) = 1) :
    (s.after n).produced = s.produced + n := by
  induction n with
  | zero => rfl
  | succ n ih =>
    have hlast : countOf (s.after n).next.1 = 1 := h n (Nat.lt_succ_self n)
    rw [after, produced_next, ih fun i hi => h i (Nat.lt_succ_of_lt hi), hlast, Nat.add_assoc]

/-- A source without a lexical fault counts all its tokens but the end of the input. -/
theorem produced_tokenize {s : Source} (h : s.tokenize.failure = none) :
    s.tokenize.tokens.length + s.produced = s.tokenize.source.produced + 1 := by
  fun_induction tokenize s with
  | case1 s failure s' hnext => cases h
  | case2 s token s' hnext hk =>
    have hproduced := s.produced_next
    rw [hnext] at hproduced
    dsimp only [countOf] at hproduced
    rw [if_pos hk] at hproduced
    show 1 + s.produced = s'.produced + 1
    omega
  | case3 s token s' hnext hk later ih =>
    have hproduced := s.produced_next
    rw [hnext] at hproduced
    dsimp only [countOf] at hproduced
    rw [if_neg hk] at hproduced
    have hlater : later.tokens.length + s'.produced = later.source.produced + 1 := ih h
    show later.tokens.length + 1 + s.produced = later.source.produced + 1
    omega

end Source
end PocketBasic

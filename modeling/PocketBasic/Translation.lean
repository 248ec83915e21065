import PocketBasic.Draft
import PocketBasic.Source

/-!
# Translating a program

A program is translated while it is read, in one pass and token by token.  The
translation holds the token to be read next and the one behind it; reading a token
means to check it, to write what it gives rise to, and to fetch the next one in the
place of the second.

The fetch stands between two of the moments in which a draft deals with a token: a
token is checked and written before it, and finished after it.  So a fault in the text
behind a label is found before the second declaration of that label, and a failure in
any moment leaves behind what the moments before it have done.

## Why it ends

Every step but the last fetches one token, and no step fetches while the token to
be read is the end of the input.  So the tokens in hand that are not the end of the
input, plus the characters that are left, grow fewer with every step
(`pending_step_lt`).
-/

namespace PocketBasic

/-- What a translator knows between two translations: the tokens in hand and the
names. -/
structure Translator where
  current : Token
  upcoming : Token
  names : Names
  deriving DecidableEq, Repr

/-- A translation in progress. -/
structure Translation extends Draft where
  current : Token
  upcoming : Token
  source : Source
  deriving DecidableEq, Repr

/-- What comes of one step. -/
inductive Step where
  | running (t : Translation)
  | complete (t : Translation)
  | failed (d : Diagnostic) (t : Translation)
  deriving DecidableEq, Repr

namespace Translator

/-- A translator that has the first two tokens of a source in hand. -/
def start (s : Source) : Except Diagnostic Translator × Source :=
  match s.next with
  | (.error d, s) => (.error d, s)
  | (.ok current, s) =>
    match s.next with
    | (.error d, s) => (.error d, s)
    | (.ok upcoming, s) => (.ok ⟨current, upcoming, .empty⟩, s)

end Translator

namespace Translation

/-- What the translator of a translation knows. -/
def toTranslator (t : Translation) : Translator := ⟨t.current, t.upcoming, t.names⟩

/-- A translation with another draft. -/
def withDraft (t : Translation) (d : Draft) : Translation := { t with toDraft := d }

/-- Takes the second token in hand for the first and fetches another.  If there is a
fault in its place, the second token stays as well. -/
def fetch (t : Translation) : Option Diagnostic × Translation :=
  match t.source.next with
  | (.ok token, source) =>
    (none, { t with source := source, current := t.upcoming, upcoming := token })
  | (.error d, source) => (some d, { t with source := source, current := t.upcoming })

/-- A diagnostic about a place in the source. -/
def diagnose (t : Translation) (cause : Cause) (place : Location) : Diagnostic :=
  ⟨cause, some place, t.source.line? place.line⟩

/-- Ends a complete program, which has come to a draft. -/
def conclude (t : Translation) (d : Draft) : Step :=
  match d.conclude with
  | .error (name, place) =>
    .failed (t.diagnose (.naming (.undeclaredLabel name)) place) (t.withDraft d)
  | .ok d => .complete (t.withDraft d)

/-- Reads over a token that has passed, with the draft in which it is checked. -/
def consume (t : Translation) (d : Draft) (next : Control) : Step :=
  match (t.withDraft (d.write t.current)).fetch with
  | (some fault, fetched) => .failed fault fetched
  | (none, fetched) =>
    match fetched.toDraft.finish t.current next with
    | .error fault => .failed (t.diagnose (.naming fault) t.current.location) fetched
    | .ok finished => .running (fetched.withDraft finished)

/-- Reads one token. -/
def step (t : Translation) : Step :=
  let settled := t.toDraft.settle t.current.kind
  match settled.check t.current with
  | .complete => t.conclude settled
  | .refused cause => .failed (t.diagnose cause t.current.location) (t.withDraft settled)
  | .passed next => t.consume settled next

/-! ## The length of a run -/

/-- Whether a token is still to be read, as a number. -/
def weight (token : Token) : Nat := if token.kind = .endOfInput then 0 else 1

/-- What a translation has still to read at most: the tokens in hand and the
characters that are left. -/
def pending (t : Translation) : Nat :=
  weight t.current + weight t.upcoming + t.source.left.length

@[simp] theorem pending_withDraft (t : Translation) (d : Draft) :
    (t.withDraft d).pending = t.pending := rfl

/-- A fetch makes less pending, if there was a token to be read. -/
theorem pending_fetch_lt {t u : Translation} (hk : t.current.kind ≠ .endOfInput)
    (h : t.fetch = (none, u)) : u.pending < t.pending := by
  unfold fetch at h
  split at h
  · rename_i token source heq
    obtain ⟨-, rfl⟩ := Prod.mk.inj h
    have hle := t.source.length_left_next_le
    rw [heq] at hle
    have hlt : token.kind ≠ .endOfInput → source.left.length < t.source.left.length := by
      intro hne
      have := t.source.length_left_next_lt (by rw [heq]; rintro _ ⟨⟩; exact hne)
      rwa [heq] at this
    simp only [pending, weight, hk, if_false]
    dsimp only at hle
    by_cases hne : token.kind = .endOfInput
    · simp only [hne, if_true]
      omega
    · have := hlt hne
      simp only [hne, if_false]
      omega
  · simp at h

/-- A token that passes is not the end of the input. -/
theorem kind_ne_of_check_passed {d : Draft} {token : Token} {next : Control}
    (h : (d.settle token.kind).check token = .passed next) : token.kind ≠ .endOfInput := by
  intro hk
  unfold Draft.check at h
  split at h
  · cases h
  · cases h
  · rename_i _ hv
    rw [hk] at hv
    exact Control.react_endOfInput_ne_proceed _ _ hv

/-- Reading over a token makes less pending. -/
theorem pending_consume_lt {t u : Translation} {d : Draft} {next : Control}
    (hk : t.current.kind ≠ .endOfInput) (h : t.consume d next = .running u) :
    u.pending < t.pending := by
  unfold consume at h
  split at h
  · cases h
  · rename_i fetched hf
    split at h
    · cases h
    · obtain rfl := Step.running.inj h
      have hlt := pending_fetch_lt (by exact hk) hf
      rwa [pending_withDraft] at hlt ⊢

/-- A step after which the translation goes on makes less pending. -/
theorem pending_step_lt {t u : Translation} (h : t.step = .running u) :
    u.pending < t.pending := by
  unfold step at h
  dsimp only at h
  split at h
  · unfold conclude at h
    split at h <;> cases h
  · cases h
  · rename_i next hv
    exact pending_consume_lt (kind_ne_of_check_passed hv) h

/-! ## Whole programs -/

/-- Reads tokens until the program is complete or a step fails. -/
def run (t : Translation) : Option Diagnostic × Translation :=
  match _h : t.step with
  | .running next => next.run
  | .complete done => (none, done)
  | .failed d stopped => (some d, stopped)
termination_by t.pending
decreasing_by exact pending_step_lt _h

/-- Sets a translator to the start of a program in what is left of a source, and
writes the opening lines of the listing. -/
def start (r : Translator) (source : Source) (listing : Listing) : Translation where
  toDraft := .start r.names listing
  current := r.current
  upcoming := r.upcoming
  source := source

/-- Translates a program in what is left of a source. -/
def translate (r : Translator) (source : Source) (listing : Listing) :
    Option Diagnostic × Translation :=
  (start r source listing).run

end Translation
end PocketBasic

import PocketBasic.Proofs.Syntax.Reference

/-!
# Reading tokens into a draft

To read a token is to go through all its moments, with no fetch between them.  What that
does to a draft has three parts: names are heeded, text is added to the body of the
listing, and the draft comes to stand elsewhere in the grammar.  `Reads` says that a list
of tokens, read where a draft stands in a given way, does just the parts that are named;
it also says that the reading fails exactly if a mention of a name does.

Readings compose (`Reads.append`), so a phrase of the grammar is read as its parts are.
-/

namespace PocketBasic

/-- A fault with its place. -/
abbrev Fault : Type := Cause × Location

/-- Where a draft stands: the place in the grammar, and the variable that an assignment is
being read for. -/
structure Stance where
  control : Control
  target : String

namespace Draft

/-- Reads one token. -/
def read (d : Draft) (token : Token) : Except Fault Draft :=
  let settled := d.settle token.kind
  match settled.check token with
  | .complete => .ok settled
  | .refused cause => .error (cause, token.location)
  | .passed next =>
    ((settled.write token).finish token next).mapError fun fault => (.naming fault, token.location)

/-- Reads tokens one after the other. -/
def readAll (d : Draft) : List Token → Except Fault Draft
  | [] => .ok d
  | token :: behind => (d.read token).bind fun d => d.readAll behind

/-- Heeds a mention of a name: a variable in use must be declared, a variable that is given
a value and a label are declared, and a jump is recorded. -/
def heed (d : Draft) : Mention → Except Fault Draft
  | .use t =>
    if t.text ∈ d.names.variableNames then .ok d
    else .error (.naming (.undeclaredVariable t.text), t.location)
  | .assign t => .ok (d.declareVariable t.text)
  | .label t =>
    match d.declareLabel t.text t.location with
    | .error fault => .error (.naming fault, t.location)
    | .ok d => .ok d
  | .jump t => .ok (d.recordJump t.text t.location)

/-- Heeds mentions one after the other. -/
def heedAll (d : Draft) : List Mention → Except Fault Draft
  | [] => .ok d
  | m :: later => (d.heed m).bind fun d => d.heedAll later

/-- Where a draft stands. -/
def stance (d : Draft) : Stance := ⟨d.control, d.target⟩

/-- Adds text to the body and comes to stand elsewhere. -/
def move (d : Draft) (text : String) (s : Stance) : Draft :=
  { d with listing := d.listing.emit text, control := s.control, target := s.target }

@[simp] theorem stance_move (d : Draft) (text : String) (s : Stance) :
    (d.move text s).stance = s := rfl

@[simp] theorem names_move (d : Draft) (text : String) (s : Stance) :
    (d.move text s).names = d.names := rfl

@[simp] theorem move_move (d : Draft) (text text' : String) (s s' : Stance) :
    (d.move text s).move text' s' = d.move (text ++ text') s' := by
  simp only [move, Listing.emit_emit]

@[simp] theorem move_empty (d : Draft) : d.move "" d.stance = d := by
  simp only [move, Listing.emit_empty, stance]

theorem readAll_append (d : Draft) (ts us : List Token) :
    d.readAll (ts ++ us) = (d.readAll ts).bind fun d => d.readAll us := by
  induction ts generalizing d with
  | nil => rfl
  | cons t ts ih =>
    rw [List.cons_append, readAll, readAll]
    cases d.read t with
    | error fault => rfl
    | ok d => exact ih d

/-- Tokens are read if the first one is and the others are behind it. -/
theorem exists_of_readAll_cons {d e : Draft} {t : Token} {ts : List Token}
    (h : d.readAll (t :: ts) = .ok e) : ∃ d', d.read t = .ok d' ∧ d'.readAll ts = .ok e := by
  rw [readAll] at h
  cases hread : d.read t with
  | error fault =>
    rw [hread] at h
    cases h
  | ok d' =>
    rw [hread] at h
    exact ⟨d', rfl, h⟩

theorem heedAll_append (d : Draft) (ms ns : List Mention) :
    d.heedAll (ms ++ ns) = (d.heedAll ms).bind fun d => d.heedAll ns := by
  induction ms generalizing d with
  | nil => rfl
  | cons m ms ih =>
    rw [List.cons_append, heedAll, heedAll]
    cases d.heed m with
    | error fault => rfl
    | ok d => exact ih d

/-- Moving does not touch the names, so it does not matter to a mention. -/
theorem heed_move (d : Draft) (text : String) (s : Stance) (m : Mention) :
    (d.move text s).heed m = (d.heed m).map (·.move text s) := by
  cases m with
  | use t =>
    rw [heed, heed, names_move]
    split <;> rfl
  | assign t =>
    rw [heed, heed, declareVariable, declareVariable, names_move]
    split <;> rfl
  | label t =>
    rw [heed, heed, declareLabel, declareLabel, names_move]
    cases d.names.labels.lookup t.text <;> rfl
  | jump t => rfl

theorem heedAll_move (d : Draft) (text : String) (s : Stance) (ms : List Mention) :
    (d.move text s).heedAll ms = (d.heedAll ms).map (·.move text s) := by
  induction ms generalizing d with
  | nil => rfl
  | cons m ms ih =>
    rw [heedAll, heedAll, heed_move]
    cases d.heed m with
    | error fault => rfl
    | ok d => exact ih d

/-! ## Settling -/

theorem close_self (d : Draft) (place : Place) : d.close place place = d := by
  cases place with
  | blankLines o => cases o <;> rfl
  | operator p => cases p <;> rfl
  | _ => rfl

/-- A draft that stands where the token is read stays as it is. -/
theorem settle_of_settled {d : Draft} {k : Kind} (h : d.control.place.settle k = d.control.place) :
    d.settle k = d := by
  have hcontrol : d.control.settle k = d.control := by rw [Control.settle, h]
  rw [settle, h, close_self, hcontrol]

/-- Reading a token begins with settling, so settling before it changes nothing. -/
theorem readAll_settle {d : Draft} {t : Token} (h : (d.settle t.kind).settle t.kind = d.settle t.kind)
    (ts : List Token) : (d.settle t.kind).readAll (t :: ts) = d.readAll (t :: ts) := by
  rw [readAll, readAll, read, read, h]

theorem useFault?_of_kind_ne (d : Draft) {t : Token} (h : t.kind ≠ .identifier) :
    d.useFault? t = none := by
  unfold useFault?
  split <;> first | contradiction | rfl

end Draft

/-- Reading `ts` from a stance heeds `ms`, adds `text` and ends in another stance. -/
def Reads (s : Stance) (ts : List Token) (ms : List Mention) (text : String) (s' : Stance) :
    Prop :=
  ∀ d : Draft, d.stance = s → d.readAll ts = (d.heedAll ms).map (·.move text s')

namespace Reads

variable {s s₁ s₂ : Stance} {ts us : List Token} {ms ns : List Mention} {text text' : String}

/-- To read nothing is to do nothing. -/
theorem nil (s : Stance) : Reads s [] [] "" s := by
  rintro d rfl
  show Except.ok d = Except.ok (d.move "" d.stance)
  rw [Draft.move_empty]

/-- Readings compose. -/
theorem append (h : Reads s ts ms text s₁) (h' : Reads s₁ us ns text' s₂) :
    Reads s (ts ++ us) (ms ++ ns) (text ++ text') s₂ := by
  rintro d hd
  rw [Draft.readAll_append, Draft.heedAll_append, h d hd]
  cases hms : d.heedAll ms with
  | error fault => rfl
  | ok e =>
    show (e.move text s₁).readAll us = (e.heedAll ns).map _
    rw [h' _ (Draft.stance_move _ _ _), Draft.heedAll_move]
    cases e.heedAll ns with
    | error fault => rfl
    | ok f => exact congrArg Except.ok (Draft.move_move f text text' s₁ s₂)

/-- A reading that adds nothing in front of another. -/
theorem cons {t : Token} (h : Reads s [t] [] text s₁) (h' : Reads s₁ us ns text' s₂) :
    Reads s (t :: us) ns (text ++ text') s₂ := h.append h'

/-- A token is read as its place says. -/
theorem of_finish {place : Place} {bs : List Block} {x x' : String} {t : Token} {k : Kind}
    {next : Control} (hk : t.kind = k) (hsettle : place.settle k = place)
    (hreact : Control.reactSettled ⟨place, bs⟩ k = .proceed next)
    (huse : ∀ d : Draft, d.control.place = place → d.useFault? t = none)
    (hfinish : ∀ d : Draft, d.stance = ⟨⟨place, bs⟩, x⟩ →
      ((d.write t).finish t next).mapError (fun fault => (.naming fault, t.location)) =
        (d.heedAll ms).map (·.move text ⟨next, x'⟩)) :
    Reads ⟨⟨place, bs⟩, x⟩ [t] ms text ⟨next, x'⟩ := by
  intro d hd
  have hcontrol : d.control = ⟨place, bs⟩ := congrArg Stance.control hd
  have hsettled : d.settle t.kind = d :=
    Draft.settle_of_settled (by rw [hcontrol, hk]; exact hsettle)
  have hcheck : d.check t = .passed next := by
    rw [Draft.check, hcontrol, hk, hreact]
    simp only [huse d (by rw [hcontrol])]
  have hread : d.read t = (d.heedAll ms).map (·.move text ⟨next, x'⟩) := by
    rw [Draft.read, hsettled]
    simp only [hcheck, hfinish d hd]
  rw [Draft.readAll, hread]
  cases d.heedAll ms <;> rfl

/-- A token that mentions no name is read as its place says. -/
theorem of_kind {place : Place} {bs : List Block} {x x' : String} {t : Token} {k : Kind}
    {next : Control} (hk : t.kind = k) (hsettle : place.settle k = place)
    (hreact : Control.reactSettled ⟨place, bs⟩ k = .proceed next)
    (huse : ∀ d : Draft, d.control.place = place → d.useFault? t = none)
    (hfinish : ∀ d : Draft, d.stance = ⟨⟨place, bs⟩, x⟩ →
      (d.write t).finish t next = .ok (d.move text ⟨next, x'⟩)) :
    Reads ⟨⟨place, bs⟩, x⟩ [t] [] text ⟨next, x'⟩ := by
  refine of_finish hk hsettle hreact huse ?_
  intro d hd
  rw [hfinish d hd]
  rfl

end Reads

/-- A reading may begin at another place, if only the text that is due there tells the two
apart when the first token is seen. -/
theorem Reads.of_settle {s₁ s₂ s : Stance} {t : Token} {ts : List Token} {ms : List Mention}
    {text text' : String}
    (hsettle : ∀ d : Draft, d.stance = s₁ → d.settle t.kind = (d.move text s₂).settle t.kind)
    (h : Reads s₂ (t :: ts) ms text' s) : Reads s₁ (t :: ts) ms (text ++ text') s := by
  intro d hd
  have hread : d.readAll (t :: ts) = (d.move text s₂).readAll (t :: ts) := by
    rw [Draft.readAll, Draft.readAll, Draft.read, Draft.read, hsettle d hd]
  rw [hread, h _ (Draft.stance_move _ _ _), Draft.heedAll_move]
  cases d.heedAll ms with
  | error fault => rfl
  | ok e => exact congrArg Except.ok (Draft.move_move e _ _ _ _)

/-- Going on to where a token of kind `k` is read heeds `ms`, adds `text` and ends in another
stance, where such a token is read. -/
def Settles (s : Stance) (k : Kind) (ms : List Mention) (text : String) (s' : Stance) : Prop :=
  s'.control.place.settle k = s'.control.place ∧
    ∀ d : Draft, d.stance = s → (d.heedAll ms).map (·.move text s') = .ok (d.settle k)

/-- What is done before a token is read goes before what is done in reading it. -/
theorem Reads.of_settles {s s₁ s₂ : Stance} {t : Token} {ts : List Token} {ms ns : List Mention}
    {text text' : String} (h : Settles s t.kind ms text s₁)
    (h' : Reads s₁ (t :: ts) ns text' s₂) :
    Reads s (t :: ts) (ms ++ ns) (text ++ text') s₂ := by
  intro d hd
  have hsettle := h.2 d hd
  cases hms : d.heedAll ms with
  | error fault =>
    rw [hms] at hsettle
    cases hsettle
  | ok e =>
    rw [hms] at hsettle
    have he : e.move text s₁ = d.settle t.kind := Except.ok.inj hsettle
    have hstays : (d.settle t.kind).settle t.kind = d.settle t.kind :=
      Draft.settle_of_settled (by rw [← he]; exact h.1)
    rw [← Draft.readAll_settle hstays, ← he, h' _ (Draft.stance_move _ _ _), Draft.heedAll_append,
      hms, Draft.heedAll_move]
    show _ = (e.heedAll ns).map _
    cases e.heedAll ns with
    | error fault => rfl
    | ok f => exact congrArg Except.ok (Draft.move_move f text text' s₁ s₂)

end PocketBasic

import PocketBasic.Proofs.NameTables
import PocketBasic.Proofs.Translation.Reading

/-!
# Relocation

A translation carries the places of its tokens along and never looks at them.  So if all
tokens stand elsewhere, the same is written, the same is declared and the same is refused, and
only the places that come with it are elsewhere.

A relocation is any function on places; it need not keep two places apart.  There are two uses
for it.  A program behind another one is the same program further down, which is a relocation
that can be undone (`Reads.relocate`).  And two programs that differ in layout only become equal
when all places are made one.

Main statement: reading relocated tokens into a relocated draft is reading the tokens into the
draft, relocated (`Draft.readAll_relocate`).
-/

namespace PocketBasic

variable (f : Location → Location)

/-! ## What is relocated -/

/-- A token that stands elsewhere. -/
def Token.relocate (t : Token) : Token := { t with location := f t.location }

/-- A declaration that stands elsewhere. -/
def Declaration.relocate : Declaration → Declaration
  | ofVariable name => .ofVariable name
  | ofLabel name place => .ofLabel name (f place)

/-- Names that were declared and jumped to elsewhere. -/
def Names.relocate (n : Names) : Names where
  declared := n.declared.map (.relocate f)
  jumps := n.jumps.map (Prod.map id f)

/-- A fault that cites another place. -/
def NameFault.relocate : NameFault → NameFault
  | undeclaredVariable name => .undeclaredVariable name
  | duplicateLabel name first => .duplicateLabel name (first.map f)
  | undeclaredLabel name => .undeclaredLabel name

/-- A cause that cites another place.  Only a second declaration of a label cites any. -/
def Cause.relocate : Cause → Cause
  | naming fault => .naming (fault.relocate f)
  | cause => cause

/-- A mention of a name elsewhere. -/
def Mention.relocate : Mention → Mention
  | use t => .use (t.relocate f)
  | assign t => .assign (t.relocate f)
  | label t => .label (t.relocate f)
  | jump t => .jump (t.relocate f)

/-- A draft whose names are relocated. -/
def Draft.relocate (d : Draft) : Draft := { d with names := d.names.relocate f }

/-- What comes of reading tokens elsewhere. -/
def relocateOutcome : Except Fault Draft → Except Fault Draft
  | .ok d => .ok (d.relocate f)
  | .error (cause, place) => .error (cause.relocate f, f place)

variable {f}

@[simp] theorem Token.kind_relocate (t : Token) : (t.relocate f).kind = t.kind := rfl

@[simp] theorem Token.text_relocate (t : Token) : (t.relocate f).text = t.text := rfl

/-- The wording of a cause cites no place. -/
@[simp] theorem Cause.description_relocate (c : Cause) :
    (c.relocate f).description = c.description := by
  cases c with
  | naming fault => cases fault <;> rfl
  | lexical fault | grammar fault | access fault | worded family description hint => rfl

/-! ## Names -/

namespace Names

@[simp] theorem variableNames_relocate (n : Names) :
    (n.relocate f).variableNames = n.variableNames := by
  rw [variableNames, variableNames, relocate, List.filterMap_map]
  congr 1
  funext d
  cases d <;> rfl

@[simp] theorem labels_relocate (n : Names) :
    (n.relocate f).labels = n.labels.map (Prod.map id f) := by
  rw [labels, labels, relocate, List.filterMap_map, List.map_filterMap]
  congr 1
  funext d
  cases d <;> rfl

/-- A name is looked up where it was before. -/
theorem lookup_map_place (xs : List (String × Location)) (name : String) :
    (xs.map (Prod.map id f)).lookup name = (xs.lookup name).map f := by
  induction xs with
  | nil => rfl
  | cons x xs ih =>
    obtain ⟨key, place⟩ := x
    rw [List.map_cons, Prod.map_apply, id_eq, List.lookup_cons, List.lookup_cons]
    split
    · rfl
    · exact ih

theorem declare_relocate (n : Names) (d : Declaration) :
    (n.relocate f).declare (d.relocate f) = (n.declare d).relocate f := by
  simp [declare, relocate]

theorem jump_relocate (n : Names) (name : String) (place : Location) :
    (n.relocate f).jump name (f place) = (n.jump name place).relocate f := by
  have hknown : ((n.relocate f).jumps.lookup name).isSome = (n.jumps.lookup name).isSome := by
    rw [relocate, lookup_map_place, Option.isSome_map]
  rw [jump, jump, hknown]
  split
  · rfl
  · simp [relocate]

theorem danglingJump?_relocate (n : Names) :
    (n.relocate f).danglingJump? = n.danglingJump?.map (Prod.map id f) := by
  rw [danglingJump?, danglingJump?, labels_relocate, relocate, List.find?_map]
  congr 2
  funext j
  simp [lookup_map_place]

end Names

/-! ## The moments of a token -/

namespace Draft

variable (d : Draft) (t : Token)

@[simp] theorem control_relocate : (d.relocate f).control = d.control := rfl

theorem declareVariable_relocate (name : String) :
    (d.relocate f).declareVariable name = (d.declareVariable name).relocate f := by
  rw [declareVariable, declareVariable, relocate, Names.variableNames_relocate]
  split
  · rfl
  · simp [relocate, headerLine, ← Names.declare_relocate, Declaration.relocate]

/-- A label is declared, or was declared already, as it is without the relocation. -/
theorem declareLabel_relocate (name : String) (place : Location) :
    (d.relocate f).declareLabel name (f place) =
      ((d.declareLabel name place).map (·.relocate f)).mapError (·.relocate f) := by
  rw [declareLabel, declareLabel, relocate, Names.labels_relocate, Names.lookup_map_place]
  cases d.names.labels.lookup name with
  | some first => rfl
  | none =>
    have hnames := Names.declare_relocate (f := f) d.names (.ofLabel name place)
    exact congrArg (fun names => Except.ok { d with names := names }) hnames

theorem recordJump_relocate (name : String) (place : Location) :
    (d.relocate f).recordJump name (f place) = (d.recordJump name place).relocate f := by
  simp [recordJump, relocate, Names.jump_relocate]

theorem close_relocate (place place' : Place) :
    (d.relocate f).close place place' = (d.close place place').relocate f := by
  unfold close
  split
  case h_4 =>
    show { ((d.emitLine ";").relocate f).declareVariable d.target with target := "" } = _
    rw [declareVariable_relocate]
    rfl
  all_goals rfl

theorem settle_relocate (k : Kind) : (d.relocate f).settle k = (d.settle k).relocate f := by
  rw [settle, settle, control_relocate, close_relocate]
  rfl

/-- Whether a token passes does not depend on its place. -/
theorem check_relocate : (d.relocate f).check (t.relocate f) = d.check t := by
  have huse : (d.relocate f).useFault? (t.relocate f) = d.useFault? t := by
    simp only [useFault?, relocate, Names.variableNames_relocate, Token.kind_relocate,
      Token.text_relocate]
  have hfault (e : Expectation) : e.fault (t.relocate f) = e.fault t := by cases e <;> rfl
  simp only [check, control_relocate, Token.kind_relocate, huse, hfault]

/-- A token is refused for a cause that cites no place. -/
theorem relocate_of_check_refused {d : Draft} {t : Token} {cause : Cause}
    (h : d.check t = .refused cause) : cause.relocate f = cause := by
  unfold check at h
  split at h
  · cases h
  · obtain rfl := Opinion.refused.inj h
    rfl
  · split at h
    · rename_i fault huse
      obtain rfl := Opinion.refused.inj h
      unfold useFault? at huse
      split at huse
      · split at huse
        · cases huse
        · obtain rfl := Option.some.inj huse
          rfl
      · split at huse
        · cases huse
        · obtain rfl := Option.some.inj huse
          rfl
      · cases huse
    · cases h

theorem write_relocate : (d.relocate f).write (t.relocate f) = (d.write t).relocate f := by
  unfold write
  rw [control_relocate]
  split <;> rfl

theorem finish_relocate (next : Control) :
    (d.relocate f).finish (t.relocate f) next =
      ((d.finish t next).map (·.relocate f)).mapError (·.relocate f) := by
  unfold finish
  rw [control_relocate, Token.kind_relocate]
  dsimp only
  split
  case h_1 => split <;> rfl
  case h_2 =>
    have hlabel : declareLabel { d.relocate f with control := next } (t.relocate f).text
        (t.relocate f).location = _ := declareLabel_relocate { d with control := next } t.text t.location
    rw [hlabel]
    cases declareLabel { d with control := next } t.text t.location <;> rfl
  case h_3 =>
    have hjump : recordJump { d.relocate f with control := next } (t.relocate f).text
        (t.relocate f).location = _ := recordJump_relocate { d with control := next } t.text t.location
    rw [hjump]
    rfl
  case h_6 =>
    have hvariable : declareVariable { d.relocate f with control := next } (t.relocate f).text = _ :=
      declareVariable_relocate { d with control := next } t.text
    rw [hvariable]
    rfl
  all_goals rfl

/-! ## Reading and heeding -/

/-- What comes of a first part, relocated, goes on with the second part, relocated. -/
theorem relocateOutcome_bind {outcome : Except Fault Draft} {g g' : Draft → Except Fault Draft}
    (h : ∀ e, g' (e.relocate f) = relocateOutcome f (g e)) :
    (relocateOutcome f outcome).bind g' = relocateOutcome f (outcome.bind g) := by
  cases outcome with
  | error fault => rfl
  | ok e => exact h e

/-- A token that stands elsewhere is read in the same way. -/
theorem read_relocate :
    (d.relocate f).read (t.relocate f) = relocateOutcome f (d.read t) := by
  rw [read, read, Token.kind_relocate, settle_relocate]
  rw [check_relocate]
  cases hcheck : (d.settle t.kind).check t with
  | complete => rfl
  | refused cause =>
    show Except.error (cause, f t.location) = Except.error (cause.relocate f, f t.location)
    rw [relocate_of_check_refused hcheck]
  | passed next =>
    dsimp only
    rw [write_relocate, finish_relocate]
    cases ((d.settle t.kind).write t).finish t next <;> rfl

/-- Tokens that stand elsewhere are read in the same way. -/
theorem readAll_relocate (ts : List Token) :
    (d.relocate f).readAll (ts.map (.relocate f)) = relocateOutcome f (d.readAll ts) := by
  induction ts generalizing d with
  | nil => rfl
  | cons t ts ih =>
    rw [List.map_cons, readAll, readAll, read_relocate]
    exact relocateOutcome_bind ih

/-- Names that are mentioned elsewhere are heeded in the same way. -/
theorem heed_relocate (m : Mention) :
    (d.relocate f).heed (m.relocate f) = relocateOutcome f (d.heed m) := by
  cases m with
  | use t =>
    show (if t.text ∈ (d.names.relocate f).variableNames then _ else _) = _
    rw [Names.variableNames_relocate, heed]
    split <;> rfl
  | assign t => exact congrArg Except.ok (d.declareVariable_relocate t.text)
  | label t =>
    have hlabel : (d.relocate f).declareLabel (t.relocate f).text (t.relocate f).location = _ :=
      d.declareLabel_relocate t.text t.location
    rw [Mention.relocate, heed, heed, hlabel]
    cases d.declareLabel t.text t.location <;> rfl
  | jump t => exact congrArg Except.ok (d.recordJump_relocate t.text t.location)

theorem heedAll_relocate (ms : List Mention) :
    (d.relocate f).heedAll (ms.map (.relocate f)) = relocateOutcome f (d.heedAll ms) := by
  induction ms generalizing d with
  | nil => rfl
  | cons m ms ih =>
    rw [List.map_cons, heedAll, heedAll, heed_relocate]
    exact relocateOutcome_bind ih

/-- The jumps of a program lead somewhere, or the first that does not is elsewhere. -/
theorem conclude_relocate :
    (d.relocate f).conclude =
      (d.conclude.map (·.relocate f)).mapError (Prod.map id f) := by
  rw [conclude, conclude, relocate, Names.danglingJump?_relocate]
  cases d.names.danglingJump? <;> rfl

/-- A relocation that can be undone reaches every draft. -/
theorem relocate_relocate {g : Location → Location} (hfg : ∀ place, f (g place) = place) :
    (d.relocate g).relocate f = d := by
  have hdeclaration (x : Declaration) : (x.relocate g).relocate f = x := by
    cases x with
    | ofVariable name => rfl
    | ofLabel name place => simp [Declaration.relocate, hfg]
  simp [relocate, Names.relocate, Function.comp_def, hdeclaration, hfg, Prod.map]

/-- Drafts that are the same when relocated have written the same and know the same names. -/
theorem same_of_relocate_eq {d e : Draft} (h : d.relocate f = e.relocate f) :
    d.listing = e.listing ∧ d.names.variableNames = e.names.variableNames ∧
      d.names.labels.map Prod.fst = e.names.labels.map Prod.fst := by
  have hnames : d.names.relocate f = e.names.relocate f := congrArg Draft.names h
  have hvariables := congrArg Names.variableNames hnames
  have hlabels := congrArg (fun n : Names => n.labels.map Prod.fst) hnames
  have hlisting : (d.relocate f).listing = (e.relocate f).listing := congrArg Draft.listing h
  refine ⟨hlisting, ?_, ?_⟩
  · simpa using hvariables
  · simpa [Function.comp_def] using hlabels

end Draft

/-- What reading a list does is done elsewhere too, if every place is reached from another. -/
theorem Reads.relocate {g : Location → Location} (hfg : ∀ place, f (g place) = place)
    {s s' : Stance} {ts : List Token} {ms : List Mention} {text : String}
    (h : Reads s ts ms text s') :
    Reads s (ts.map (.relocate f)) (ms.map (.relocate f)) text s' := by
  intro d hd
  obtain ⟨e, rfl⟩ : ∃ e : Draft, d = e.relocate f :=
    ⟨d.relocate g, (d.relocate_relocate hfg).symm⟩
  rw [Draft.readAll_relocate, Draft.heedAll_relocate, h e hd]
  cases e.heedAll ms <;> rfl

end PocketBasic

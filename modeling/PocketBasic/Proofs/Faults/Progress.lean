import PocketBasic.Proofs.Faults.Checks
import PocketBasic.Proofs.NameTables
import PocketBasic.Proofs.Translation.Sources

/-!
# What a draft knows of the tokens before it

A draft that has read some tokens without a fault knows what the checks ask of those tokens
(`Draft.Tracks`): which variables have been given a value, which labels are declared, what has
been jumped to, and whether a keyword stands right before the next token.  The variable of an
assignment is not declared before the line ends, so while such a line is read the draft keeps
the variable in mind (the field `targets`).

Main statement: `Tracks.finish`, that reading one more token keeps this up.
-/

namespace PocketBasic

/-! ## Places -/

/-- The place where the name behind a keyword is read. -/
def Keyword.namePlace? : Keyword → Option Place
  | .LABEL => some .labelName
  | .GOTO => some .jumpName
  | .LET => some .assignedName
  | .INPUT => some .inputName
  | _ => none

/-- Whether the variable of an assignment is kept in mind at a place. -/
def Place.assigns : Place → Bool
  | .equalsSign | .operand .assigned | .signed .assigned | .operator .assigned => true
  | _ => false

theorem Keyword.namePlace_cases {w : Keyword} {place : Place} (h : w.namePlace? = some place) :
    w = .LABEL ∧ place = .labelName ∨ w = .GOTO ∧ place = .jumpName ∨
      w = .LET ∧ place = .assignedName ∨ w = .INPUT ∧ place = .inputName := by
  cases w <;> simp_all [namePlace?]

namespace Control

variable {bs : List Block} {place : Place} {k : Kind} {next : Control}

/-- Settling neither leads to a place where a name is read nor away from it. -/
theorem settle_eq_namePlace_iff {w : Keyword} {place' : Place} (h : w.namePlace? = some place') :
    place.settle k = place' ↔ place = place' := by
  have hsettling := place.settling_settle k
  generalize place.settle k = settled at hsettling
  rcases Keyword.namePlace_cases h with ⟨rfl, rfl⟩ | ⟨rfl, rfl⟩ | ⟨rfl, rfl⟩ | ⟨rfl, rfl⟩
  all_goals cases hsettling <;> simp

/-- A name is read right behind its keyword. -/
theorem Step.place_eq_iff (h : Step bs place k next) {w : Keyword} {place' : Place}
    (hw : w.namePlace? = some place') : next.place = place' ↔ k = .keyword w := by
  have hkeyword : ∀ k : Kind, k.isSign ∨ k.isOperand ∨ k.isArithmetic ∨ k.isComparison →
      k ≠ .keyword w := by
    rintro _ hk rfl
    rcases hk with hk | hk | hk | hk <;> cases hk
  rcases Keyword.namePlace_cases hw with ⟨rfl, rfl⟩ | ⟨rfl, rfl⟩ | ⟨rfl, rfl⟩ | ⟨rfl, rfl⟩
  all_goals
    cases h with
    | sign _ hk => simpa using hkeyword _ (.inl hk)
    | operand _ hk => simpa using hkeyword _ (.inr (.inl hk))
    | signed _ hk => simpa using hkeyword _ (.inr (.inl hk))
    | operator _ hk => simpa using hkeyword _ (.inr (.inr (.inl hk)))
    | tested _ hk => simpa using hkeyword _ (.inr (.inr (.inr hk)))
    | compared _ hk => simpa using hkeyword _ (.inr (.inr (.inr hk)))
    | block b => cases b <;> simp [Block.word]
    | close b => cases b <;> simp [Block.closer]
    | opener b => cases b <;> simp [Block.opener]
    | _ => simp

/-- Where a name is read, an identifier is read. -/
theorem Step.kind_of_namePlace (h : Step bs place k next) {w : Keyword}
    (hw : w.namePlace? = some place) : k = .identifier := by
  rcases Keyword.namePlace_cases hw with ⟨rfl, rfl⟩ | ⟨rfl, rfl⟩ | ⟨rfl, rfl⟩ | ⟨rfl, rfl⟩
  all_goals
    cases h
    rfl

/-- A line end ends an assignment behind an operand, and nowhere else. -/
theorem Step.of_newline (h : Step bs (place.settle .newline) .newline next) :
    next.place.assigns = false ∧ (place.assigns ↔ place = .operator .assigned) := by
  have hsettling := place.settling_settle .newline
  generalize place.settle .newline = settled at hsettling h
  cases hsettling with
  | stay =>
    cases h with
    | beginning | lineEnd o | blankLines o => exact ⟨rfl, by simp [Place.assigns]⟩
    | sign _ hk | operand _ hk | signed _ hk | operator _ hk | tested _ hk | compared _ hk => cases hk
  | beginning hk => exact absurd rfl hk
  | blankLines o hk => exact absurd rfl hk
  | value => cases h with | sign _ hk | operand _ hk => cases hk
  | opener => cases h
  | printed | assigned =>
    cases h
    exact ⟨rfl, by simp [Place.assigns]⟩

/-- Otherwise an assignment goes on, unless its name is only being read. -/
theorem Step.assigns_iff (h : Step bs (place.settle k) k next) (hk : k ≠ .newline)
    (hplace : place ≠ .assignedName) : next.place.assigns = place.assigns := by
  have hsettling := place.settling_settle k
  generalize place.settle k = settled at hsettling h
  cases hsettling with
  | stay =>
    cases h with
    | assignedName => exact absurd rfl hplace
    | sign p | operand p | signed p | operator p => cases p <;> rfl
    | _ => rfl
  | beginning | blankLines | opener => cases h <;> rfl
  | value => cases h <;> rfl
  | printed | assigned =>
    cases h
    exact absurd rfl hk

end Control
namespace Draft

variable {d e : Draft} {t : Token} {next : Control} {before : List Token}

/-! ## What one token does to the names -/

/-- Where an assignment ends, its variable is declared. -/
theorem names_settle_of_assigned (h : d.control.place = .operator .assigned) {k : Kind}
    (hk : ¬ k.isArithmetic) : (d.settle k).names = (d.declareVariable d.target).names := by
  have hsettled : d.control.place.settle k = .lineEnd false := by
    rw [h]
    exact if_neg hk
  rw [settle, hsettled, h]
  show ((d.emitLine ";").declareVariable d.target).names = _
  exact names_declareVariable rfl

/-- Nowhere else do the names and the kept variable change on the way to a token. -/
theorem settle_of_not_assigned {k : Kind}
    (h : ¬ (d.control.place = .operator .assigned ∧ ¬ k.isArithmetic)) :
    (d.settle k).names = d.names ∧ (d.settle k).target = d.target := by
  have hsettling := d.control.place.settling_settle k
  unfold settle
  generalize d.control.place.settle k = settled at hsettling
  generalize hplace : d.control.place = place at hsettling h
  cases hsettling with
  | stay =>
    rw [close_self]
    exact ⟨rfl, rfl⟩
  | blankLines o => cases o <;> exact ⟨rfl, rfl⟩
  | assigned hk => exact absurd ⟨rfl, hk⟩ h
  | beginning | value | printed | opener => exact ⟨rfl, rfl⟩

theorem labels_settle (d : Draft) (k : Kind) : (d.settle k).names.labels = d.names.labels := by
  by_cases h : d.control.place = .operator .assigned ∧ ¬ k.isArithmetic
  · rw [names_settle_of_assigned h.1 h.2, labels_declareVariable]
  · rw [(settle_of_not_assigned h).1]

theorem jumps_settle (d : Draft) (k : Kind) : (d.settle k).names.jumps = d.names.jumps := by
  by_cases h : d.control.place = .operator .assigned ∧ ¬ k.isArithmetic
  · rw [names_settle_of_assigned h.1 h.2, jumps_declareVariable]
  · rw [(settle_of_not_assigned h).1]

theorem mem_variableNames_settle {k : Kind} {x : String} :
    x ∈ (d.settle k).names.variableNames ↔ x ∈ d.names.variableNames ∨
      (d.control.place = .operator .assigned ∧ ¬ k.isArithmetic) ∧ x = d.target := by
  by_cases h : d.control.place = .operator .assigned ∧ ¬ k.isArithmetic
  · rw [names_settle_of_assigned h.1 h.2, mem_variableNames_declareVariable, and_iff_right h]
  · rw [(settle_of_not_assigned h).1]
    simp only [h, false_and, or_false]

/-- What becomes of the names and of the kept variable when a token is finished: names are
read behind their keywords, and no other token matters. -/
inductive Finished (d : Draft) (t : Token) : Names → String → Prop where
  | label (hplace : d.control.place = .labelName) (hnew : t.text ∉ d.names.labels.map Prod.fst) :
    Finished d t (d.names.declare (.ofLabel t.text t.location)) d.target
  | jump (hplace : d.control.place = .jumpName) :
    Finished d t (d.names.jump t.text t.location) d.target
  | assignedName (hplace : d.control.place = .assignedName) : Finished d t d.names t.text
  | input (hplace : d.control.place = .inputName) :
    Finished d t (d.declareVariable t.text).names d.target
  | other (hplace : ∀ w : Keyword, w.namePlace? ≠ some d.control.place) :
    Finished d t d.names d.target

theorem finished_of_finish (h : (d.write t).finish t next = .ok e) :
    Finished d t e.names e.target := by
  obtain ⟨names, listing, ⟨place, blocks⟩, target⟩ := d
  have hother : (∀ w : Keyword, w.namePlace? ≠ some place) → e.names = names →
      e.target = target → Finished ⟨names, listing, ⟨place, blocks⟩, target⟩ t e.names e.target := by
    rintro hplace rfl rfl
    exact .other hplace
  cases place with
  | labelName =>
    rw [write, finish] at h
    cases hfirst : names.labels.lookup t.text with
    | some first =>
      rw [declareLabel_eq_error hfirst] at h
      cases h
    | none =>
      have hnew := Names.isNone_lookup_iff.mp (Option.isNone_iff_eq_none.mpr hfirst)
      rw [declareLabel_eq_ok hnew] at h
      obtain rfl := Except.ok.inj h
      exact .label rfl hnew
  | jumpName =>
    obtain rfl := Except.ok.inj h
    exact .jump rfl
  | assignedName =>
    obtain rfl := Except.ok.inj h
    exact .assignedName rfl
  | inputName =>
    have hnames : e.names =
        (declareVariable ⟨names, listing, ⟨.inputName, blocks⟩, target⟩ t.text).names := by
      rw [← Except.ok.inj h]
      exact names_declareVariable rfl
    have htarget : e.target = target := by
      rw [← Except.ok.inj h]
      exact target_declareVariable
    rw [hnames, htarget]
    exact .input rfl
  | statement =>
    rw [write, finish] at h
    dsimp only at h
    refine hother (fun w => by cases w <;> simp [Keyword.namePlace?]) ?_ ?_
    all_goals split at h <;> obtain rfl := Except.ok.inj h <;> rfl
  | _ =>
    obtain rfl := Except.ok.inj h
    exact hother (fun w => by cases w <;> simp [Keyword.namePlace?]) rfl rfl

namespace Finished

variable {names : Names} {kept : String}

theorem labels (h : Finished d t names kept) :
    names.labels = d.names.labels ++
      if d.control.place = .labelName then [(t.text, t.location)] else [] := by
  cases h with
  | label hplace => rw [Names.labels_declare_ofLabel, if_pos hplace]
  | jump hplace => rw [Names.labels_jump, hplace, if_neg Place.noConfusion, List.append_nil]
  | input hplace => rw [labels_declareVariable, hplace, if_neg Place.noConfusion, List.append_nil]
  | assignedName hplace => rw [hplace, if_neg Place.noConfusion, List.append_nil]
  | other hplace =>
    rw [if_neg (fun h => hplace .LABEL (congrArg some h.symm)), List.append_nil]

theorem jumps (h : Finished d t names kept) (p : String → Bool) :
    (names.jumps.find? fun j => p j.1) = (d.names.jumps.find? fun j => p j.1).or
      ((if d.control.place = .jumpName then [(t.text, t.location)] else []).find?
        fun j => p j.1) := by
  cases h with
  | jump hplace => rw [Names.find?_jump, if_pos hplace]
  | label hplace =>
    rw [hplace, if_neg Place.noConfusion, List.find?_nil, Option.or_none]
    rfl
  | input hplace =>
    rw [jumps_declareVariable, hplace, if_neg Place.noConfusion, List.find?_nil, Option.or_none]
  | assignedName hplace => rw [hplace, if_neg Place.noConfusion, List.find?_nil, Option.or_none]
  | other hplace =>
    rw [if_neg (fun h => hplace .GOTO (congrArg some h.symm)), List.find?_nil, Option.or_none]

theorem mem_variableNames (h : Finished d t names kept) {x : String} :
    x ∈ names.variableNames ↔
      x ∈ d.names.variableNames ∨ d.control.place = .inputName ∧ x = t.text := by
  cases h with
  | input hplace => rw [mem_variableNames_declareVariable, hplace, eq_self_iff_true, true_and]
  | label hplace =>
    rw [Names.variableNames_declare_ofLabel, hplace]
    simp
  | jump hplace =>
    rw [Names.variableNames_jump, hplace]
    simp
  | assignedName hplace =>
    rw [hplace]
    simp
  | other hplace =>
    refine ⟨.inl, fun h => h.elim id fun hinput => ?_⟩
    exact absurd (congrArg some hinput.1.symm) (hplace .INPUT)

theorem kept_eq (h : Finished d t names kept) :
    kept = if d.control.place = .assignedName then t.text else d.target := by
  cases h with
  | assignedName hplace => rw [if_pos hplace]
  | label hplace => rw [hplace, if_neg Place.noConfusion]
  | jump hplace => rw [hplace, if_neg Place.noConfusion]
  | input hplace => rw [hplace, if_neg Place.noConfusion]
  | other hplace => rw [if_neg (fun h => hplace .LET (congrArg some h.symm))]

theorem not_mem_labels (h : Finished d t names kept) (hplace : d.control.place = .labelName) :
    t.text ∉ d.names.labels.map Prod.fst := by
  cases h with
  | label _ hnew => exact hnew
  | jump h | assignedName h | input h =>
    rw [hplace] at h
    cases h
  | other h => exact absurd (congrArg some hplace.symm) (h .LABEL)

end Finished

/-- Only a label can be wrong when a token is finished. -/
theorem finish_eq_error {fault : NameFault} (h : (d.write t).finish t next = .error fault) :
    d.control.place = .labelName ∧ ∃ first, d.names.labels.lookup t.text = some first ∧
      fault = .duplicateLabel t.text (some first) := by
  obtain ⟨names, listing, ⟨place, blocks⟩, target⟩ := d
  cases place with
  | labelName =>
    rw [write, finish] at h
    cases hfirst : names.labels.lookup t.text with
    | some first =>
      rw [declareLabel_eq_error hfirst] at h
      exact ⟨rfl, first, rfl, (Except.error.inj h).symm⟩
    | none =>
      have hnew := Names.isNone_lookup_iff.mp (Option.isNone_iff_eq_none.mpr hfirst)
      rw [declareLabel_eq_ok hnew] at h
      cases h
  | statement =>
    rw [write, finish] at h
    dsimp only at h
    split at h <;> cases h
  | _ => cases h

/-! ## What a draft knows of the tokens before it -/

/-- A draft that has read some tokens without a fault. -/
structure Tracks (d : Draft) (before : List Token) : Prop where
  control : Control.start.follow (before.map Token.kind) = some d.control
  places : ∀ {w : Keyword} {place : Place}, w.namePlace? = some place →
    (d.control.place = place ↔ endsWith before w = true)
  labels : d.names.labels = (namesBehind .LABEL before).map fun t => (t.text, t.location)
  jumps : ∀ p : String → Bool, (d.names.jumps.find? fun j => p j.1) =
    ((namesBehind .GOTO before).map fun t => (t.text, t.location)).find? fun j => p j.1
  declared : ∀ x, x ∈ d.names.variableNames ↔ x ∈ assignedIn before
  targets : ∀ x, x ∈ (namesBehind .LET before).map Token.text ↔
    x ∈ (namesBehind .LET (closedLines before)).map Token.text ∨
      d.control.place.assigns ∧ x = d.target

theorem tracks_start : (start .empty .empty).Tracks [] where
  control := rfl
  places h := by
    rcases Keyword.namePlace_cases h with ⟨rfl, rfl⟩ | ⟨rfl, rfl⟩ | ⟨rfl, rfl⟩ | ⟨rfl, rfl⟩ <;> decide
  labels := rfl
  jumps _ := rfl
  declared x := Iff.rfl
  targets x := by
    refine ⟨.inl, fun h => h.elim id fun hassigns => ?_⟩
    cases hassigns.1

namespace Tracks

variable {k : Kind}

/-- A token is a name behind a keyword exactly if it is read where such names are read. -/
theorem isName_iff (h : d.Tracks before)
    (hstep : Control.Step d.control.blocks (d.control.place.settle t.kind) t.kind next)
    {w : Keyword} {place : Place} (hw : w.namePlace? = some place) :
    endsWith before w = true ∧ t.kind = .identifier ↔ d.control.place.settle t.kind = place := by
  rw [Control.settle_eq_namePlace_iff hw, h.places hw]
  refine and_iff_left_of_imp ?_
  intro hends
  have hplace := (h.places hw).mpr hends
  have hsettle := (Control.settle_eq_namePlace_iff (k := t.kind) hw).mpr hplace
  rw [hsettle] at hstep
  exact hstep.kind_of_namePlace hw

theorem mem_namesBehind_concat (h : d.Tracks before)
    (hstep : Control.Step d.control.blocks (d.control.place.settle t.kind) t.kind next)
    {w : Keyword} {place : Place} (hw : w.namePlace? = some place) {x : String} :
    x ∈ (namesBehind w (before ++ [t])).map Token.text ↔
      x ∈ (namesBehind w before).map Token.text ∨
        d.control.place.settle t.kind = place ∧ x = t.text := by
  rw [namesBehind_concat, List.map_append, List.mem_append]
  simp only [h.isName_iff hstep hw]
  split
  · rename_i hplace
    rw [and_iff_right hplace, List.map_singleton, List.mem_singleton]
  · rename_i hplace
    simp [hplace]

/-- A line end is read where no name is. -/
theorem settle_ne_of_newline
    (hstep : Control.Step d.control.blocks (d.control.place.settle t.kind) t.kind next)
    (hk : t.kind = .newline) {w : Keyword} {place : Place} (hw : w.namePlace? = some place) :
    d.control.place.settle t.kind ≠ place := by
  intro hplace
  rw [hplace] at hstep
  rw [hstep.kind_of_namePlace hw] at hk
  cases hk

/-- An assignment ends at a line end. -/
theorem newline_of_assigned
    (hstep : Control.Step d.control.blocks (d.control.place.settle t.kind) t.kind next)
    (hplace : d.control.place = .operator .assigned) (hk : ¬ t.kind.isArithmetic) :
    t.kind = .newline := by
  have hsettled : d.control.place.settle t.kind = .lineEnd false := by
    rw [hplace]
    exact if_neg hk
  rw [hsettled] at hstep
  generalize t.kind = k at hstep
  cases hstep
  rfl

/-- The variables that are declared behind one more token are those that have been given a
value by then. -/
theorem declared_finish (h : d.Tracks before)
    (hstep : Control.Step d.control.blocks (d.control.place.settle t.kind) t.kind next)
    {names : Names} {kept : String} (hfinished : Finished (d.settle t.kind) t names kept)
    (x : String) : x ∈ names.variableNames ↔ x ∈ assignedIn (before ++ [t]) := by
  rw [hfinished.mem_variableNames, mem_variableNames_settle, h.declared, mem_assignedIn,
    mem_assignedIn, h.mem_namesBehind_concat hstep (w := .INPUT) rfl]
  show _ ∨ d.control.place.settle t.kind = .inputName ∧ x = t.text ↔ _
  by_cases hk : t.kind = .newline
  · have hinput := settle_ne_of_newline hstep hk (w := .INPUT) rfl
    have hlet := settle_ne_of_newline hstep hk (w := .LET) rfl
    have hassigns : d.control.place = .operator .assigned ∧ ¬ t.kind.isArithmetic ↔
        d.control.place.assigns := by
      rw [hk] at hstep ⊢
      rw [hstep.of_newline.2]
      exact and_iff_left Bool.false_ne_true
    rw [closedLines_concat_newline before hk, h.mem_namesBehind_concat hstep (w := .LET) rfl,
      h.targets, hassigns]
    simp only [hinput, hlet, false_and, or_false, or_assoc]
  · have hassigned : ¬ (d.control.place = .operator .assigned ∧ ¬ t.kind.isArithmetic) :=
      fun hend => hk (newline_of_assigned hstep hend.1 hend.2)
    rw [closedLines_concat before hk]
    simp only [hassigned, false_and, or_false]
    exact or_right_comm

/-- The variables behind `LET` are those in lines that have ended and the one that is kept. -/
theorem targets_finish (h : d.Tracks before)
    (hstep : Control.Step d.control.blocks (d.control.place.settle t.kind) t.kind next)
    {names : Names} {kept : String} (hfinished : Finished (d.settle t.kind) t names kept)
    (x : String) : x ∈ (namesBehind .LET (before ++ [t])).map Token.text ↔
      x ∈ (namesBehind .LET (closedLines (before ++ [t]))).map Token.text ∨
        next.place.assigns ∧ x = kept := by
  by_cases hk : t.kind = .newline
  · have hassigns : next.place.assigns = false := by
      rw [hk] at hstep
      exact hstep.of_newline.1
    rw [closedLines_concat_newline before hk, hassigns]
    simp only [Bool.false_eq_true, false_and, or_false]
  rw [closedLines_concat before hk, h.mem_namesBehind_concat hstep (w := .LET) rfl, h.targets,
    hfinished.kept_eq]
  show _ ↔ _ ∨ _ ∧ x = if d.control.place.settle t.kind = .assignedName then _ else _
  by_cases hname : d.control.place.settle t.kind = .assignedName
  · have hplace := (Control.settle_eq_namePlace_iff (w := .LET) rfl).mp hname
    have hnext : next.place.assigns = true := by
      rw [hname] at hstep
      generalize t.kind = k at hstep
      cases hstep
      rfl
    have hbefore : d.control.place.assigns = false := by
      rw [hplace]
      rfl
    rw [hnext, hbefore, if_pos hname]
    simp only [Bool.false_eq_true, false_and, or_false, hname, true_and]
  · have hplace : d.control.place ≠ .assignedName := by
      intro hplace
      exact hname ((Control.settle_eq_namePlace_iff (w := .LET) rfl).mpr hplace)
    have hassigned : ¬ (d.control.place = .operator .assigned ∧ ¬ t.kind.isArithmetic) :=
      fun hend => hk (newline_of_assigned hstep hend.1 hend.2)
    rw [hstep.assigns_iff hk hplace, if_neg hname, (settle_of_not_assigned hassigned).2]
    simp only [hname, false_and, or_false]

end Tracks

/-- Reading one more token keeps up what a draft knows. -/
theorem Tracks.finish (h : d.Tracks before)
    (hreact : d.control.react t.kind = .proceed next)
    (hfinish : ((d.settle t.kind).write t).finish t next = .ok e) : e.Tracks (before ++ [t]) := by
  have hstep := Control.Step.of_reactSettled hreact
  have hcontrol : e.control = next := control_finish hfinish
  have hfinished := finished_of_finish hfinish
  refine ⟨?_, ?_, ?_, ?_, h.declared_finish hstep hfinished, ?_⟩
  · rw [List.map_append, Control.follow_append, h.control, hcontrol]
    show d.control.follow [t.kind] = some next
    rw [Control.follow, hreact]
    rfl
  · intro w place hw
    rw [hcontrol, hstep.place_eq_iff hw, endsWith_concat, decide_eq_true_eq]
  · rw [hfinished.labels, labels_settle, h.labels, PocketBasic.namesBehind_concat, List.map_append]
    simp only [h.isName_iff hstep (w := .LABEL) rfl]
    show _ ++ (if d.control.place.settle t.kind = .labelName then _ else _) = _
    split <;> rfl
  · intro p
    rw [hfinished.jumps, jumps_settle, h.jumps, PocketBasic.namesBehind_concat, List.map_append,
      List.find?_append]
    simp only [h.isName_iff hstep (w := .GOTO) rfl]
    show Option.or _ (List.find? _ (if d.control.place.settle t.kind = .jumpName then _ else _)) = _
    split <;> rfl
  · intro x
    rw [hcontrol]
    exact h.targets_finish hstep hfinished x

end Draft
end PocketBasic

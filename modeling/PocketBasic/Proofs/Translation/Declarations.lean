import PocketBasic.Proofs.NameTables
import PocketBasic.Proofs.Translation.Reading

/-!
# Heeding the mentions of a program

What a draft knows of names after the mentions of a program is said here without a draft:
the tables are read off the list of the mentions (`Draft.Knows`).  One mention keeps this up
(`Knows.heed`), hence all mentions of a program do (`Knows.heedAll`).

A mention fails exactly if the mentions before it do not allow it (`Mention.Allowed`).  So
the mentions of a program are heeded to their end exactly if the program assigns every
variable before it uses it and gives no two labels the same name
(`allAllowed_iff`).
-/

namespace PocketBasic

/-! ## What mentions allow -/

/-- Whether a mention is right behind other mentions: a variable in use was given a value,
and a label was not declared. -/
def Mention.Allowed (before : List Mention) : Mention → Prop
  | use t => t.text ∈ before.filterMap target?
  | label t => t.text ∉ (before.filterMap label?).map Prod.fst
  | assign _ | jump _ => True

/-- All mentions of a list are right, behind other mentions. -/
def AllAllowed (before : List Mention) : List Mention → Prop
  | [] => True
  | m :: ms => m.Allowed before ∧ AllAllowed (before ++ [m]) ms

theorem allAllowed_iff_forall {before ms : List Mention} :
    AllAllowed before ms ↔
      ∀ ns m after, ms = ns ++ m :: after → m.Allowed (before ++ ns) := by
  induction ms generalizing before with
  | nil =>
    constructor
    · intro _ ns m after h
      cases ns <;> cases h
    · intro _
      trivial
  | cons m ms ih =>
    rw [AllAllowed, ih]
    constructor
    · rintro ⟨hm, hms⟩ ns m' after h
      cases ns with
      | nil =>
        obtain ⟨rfl, rfl⟩ := List.cons.inj h
        rwa [List.append_nil]
      | cons n ns =>
        obtain ⟨rfl, htail⟩ := List.cons.inj h
        have hallowed := hms ns m' after htail
        rwa [List.append_assoc, List.singleton_append] at hallowed
    · intro h
      refine ⟨?_, fun ns m' after htail => ?_⟩
      · have hm := h [] m ms rfl
        rwa [List.append_nil] at hm
      · rw [List.append_assoc, List.singleton_append]
        exact h (m :: ns) m' after (by rw [htail, List.cons_append])

theorem labelsDistinct_of_allAllowed {before ms : List Mention} (h : AllAllowed before ms)
    (hbefore : LabelsDistinct before) : LabelsDistinct (before ++ ms) := by
  induction ms generalizing before with
  | nil => rwa [List.append_nil]
  | cons m ms ih =>
    rw [← List.singleton_append, ← List.append_assoc]
    refine ih h.2 ?_
    rw [LabelsDistinct, List.filterMap_append, List.map_append]
    cases m with
    | label t => exact List.nodup_append.mpr ⟨hbefore, List.pairwise_singleton _ _, by
        rintro name hname name' hname' rfl
        rw [List.mem_singleton.mp hname'] at hname
        exact h.1 hname⟩
    | use t | assign t | jump t =>
      show (_ ++ []).Nodup
      rwa [List.append_nil]

/-- Mentions are right exactly if they keep the rules of names. -/
theorem allAllowed_iff (ms : List Mention) :
    AllAllowed [] ms ↔ UsesAssigned ms ∧ LabelsDistinct ms := by
  constructor
  · intro h
    refine ⟨fun before t after hms => ?_, labelsDistinct_of_allAllowed h List.nodup_nil⟩
    exact allAllowed_iff_forall.mp h before (.use t) after hms
  · rintro ⟨huses, hlabels⟩
    refine allAllowed_iff_forall.mpr ?_
    intro before m after hms
    cases m with
    | use t => exact huses before t after hms
    | label t =>
      rw [LabelsDistinct, hms, List.filterMap_append, List.map_append] at hlabels
      intro hmem
      exact (List.nodup_append.mp hlabels).2.2 t.text hmem t.text List.mem_cons_self rfl
    | assign t | jump t => trivial

/-- The last of some elements counts only if it is new. -/
theorem eraseDups_concat (xs : List String) (x : String) :
    (xs ++ [x]).eraseDups = if x ∈ xs then xs.eraseDups else xs.eraseDups ++ [x] := by
  rw [List.eraseDups_append, List.cons_removeAll, List.contains_eq_mem]
  by_cases hmem : x ∈ xs
  · rw [if_pos hmem, if_neg (by simp [hmem])]
    exact List.append_nil _
  · rw [if_neg hmem, if_pos (by simp [hmem])]
    rfl

namespace Draft

/-! ## What is known behind mentions -/

/-- A draft knows the names that have been mentioned, and has declared the variables among
them in its header. -/
structure Knows (d : Draft) (ms : List Mention) : Prop where
  declared : d.names.variableNames = (ms.filterMap Mention.target?).eraseDups
  labels : d.names.labels = ms.filterMap Mention.label?
  jumps : ∀ p : String → Bool, (d.names.jumps.find? fun j => p j.1) =
    (ms.filterMap Mention.jump?).find? fun j => p j.1
  header : d.listing.header =
    unlines (preamble ++ d.names.variableNames.map declarationLine)

theorem knows_start : (start .empty .empty).Knows [] where
  declared := rfl
  labels := rfl
  jumps _ := rfl
  header := rfl

variable {d e : Draft} {ms : List Mention} {m : Mention}

theorem Knows.mem_variableNames (h : d.Knows ms) {x : String} :
    x ∈ d.names.variableNames ↔ x ∈ ms.filterMap Mention.target? := by
  rw [h.declared, List.mem_eraseDups]

/-- A variable that is given a value is declared once. -/
theorem Knows.assign (h : d.Knows ms) (t : Token) :
    (d.declareVariable t.text).Knows (ms ++ [Mention.assign t]) where
  declared := by
    have hmem := h.mem_variableNames (x := t.text)
    rw [h.declared] at hmem
    rw [variableNames_declareVariable, h.declared, List.filterMap_append]
    show _ = (_ ++ [t.text]).eraseDups
    rw [eraseDups_concat]
    simp only [hmem]
  labels := by
    rw [labels_declareVariable, h.labels, List.filterMap_append]
    exact (List.append_nil _).symm
  jumps p := by
    rw [jumps_declareVariable, h.jumps, List.filterMap_append]
    exact congrArg _ (List.append_nil _).symm
  header := by
    rw [header_declareVariable, variableNames_declareVariable, h.header]
    split
    · rfl
    · rw [List.map_append, ← List.append_assoc, unlines_append _ (List.map _ [_]), List.map_singleton,
        unlines_singleton]

theorem Knows.label (h : d.Knows ms) (t : Token) :
    Knows { d with names := d.names.declare (.ofLabel t.text t.location) }
      (ms ++ [Mention.label t]) where
  declared := by
    rw [Names.variableNames_declare_ofLabel, h.declared, List.filterMap_append]
    exact congrArg _ (List.append_nil _).symm
  labels := by
    rw [Names.labels_declare_ofLabel, h.labels, List.filterMap_append]
    rfl
  jumps p := by
    rw [List.filterMap_append]
    exact (h.jumps p).trans (congrArg _ (List.append_nil _).symm)
  header := by
    rw [Names.variableNames_declare_ofLabel]
    exact h.header

theorem Knows.jump (h : d.Knows ms) (t : Token) :
    (d.recordJump t.text t.location).Knows (ms ++ [Mention.jump t]) where
  declared := by
    rw [recordJump, Names.variableNames_jump, h.declared, List.filterMap_append]
    exact congrArg _ (List.append_nil _).symm
  labels := by
    rw [recordJump, Names.labels_jump, h.labels, List.filterMap_append]
    exact (List.append_nil _).symm
  jumps p := by
    rw [recordJump, Names.find?_jump, h.jumps, List.filterMap_append, List.find?_append]
    rfl
  header := by
    rw [recordJump, Names.variableNames_jump]
    exact h.header

theorem Knows.use (h : d.Knows ms) (t : Token) : d.Knows (ms ++ [Mention.use t]) where
  declared := by
    rw [h.declared, List.filterMap_append]
    exact congrArg _ (List.append_nil _).symm
  labels := by
    rw [h.labels, List.filterMap_append]
    exact (List.append_nil _).symm
  jumps p := by
    rw [h.jumps, List.filterMap_append]
    exact congrArg _ (List.append_nil _).symm
  header := h.header

/-- A mention that is allowed is heeded, and then it is known. -/
theorem Knows.heed (h : d.Knows ms) (hm : m.Allowed ms) :
    ∃ e, d.heed m = .ok e ∧ e.Knows (ms ++ [m]) := by
  cases m with
  | use t => exact ⟨d, if_pos (h.mem_variableNames.mpr hm), h.use t⟩
  | assign t => exact ⟨_, rfl, h.assign t⟩
  | label t =>
    have hnew : t.text ∉ d.names.labels.map Prod.fst := by
      rw [h.labels]
      exact hm
    refine ⟨_, ?_, h.label t⟩
    rw [Draft.heed, declareLabel_eq_ok hnew]
  | jump t => exact ⟨_, rfl, h.jump t⟩

/-- A mention that is not allowed is a fault. -/
theorem Knows.heed_eq_error (h : d.Knows ms) (hm : ¬ m.Allowed ms) :
    ∃ fault, d.heed m = .error fault := by
  cases m with
  | use t => exact ⟨_, if_neg fun hmem => hm (h.mem_variableNames.mp hmem)⟩
  | assign t => exact absurd trivial hm
  | label t =>
    cases hfirst : d.names.labels.lookup t.text with
    | none =>
      rw [← Option.isNone_iff_eq_none, Names.isNone_lookup_iff, h.labels] at hfirst
      exact absurd hfirst hm
    | some first =>
      refine ⟨(.naming (.duplicateLabel t.text (some first)), t.location), ?_⟩
      rw [Draft.heed, declareLabel_eq_error hfirst]
  | jump t => exact absurd trivial hm

/-- Mentions are heeded to their end exactly if all of them are allowed, and then they are
known. -/
theorem Knows.heedAll (h : d.Knows ms) (ns : List Mention) :
    (AllAllowed ms ns ∧ ∃ e, d.heedAll ns = .ok e ∧ e.Knows (ms ++ ns)) ∨
      (¬ AllAllowed ms ns ∧ ∃ fault, d.heedAll ns = .error fault) := by
  induction ns generalizing d ms with
  | nil => exact .inl ⟨trivial, d, rfl, by rwa [List.append_nil]⟩
  | cons m ns ih =>
    by_cases hm : m.Allowed ms
    · obtain ⟨e, he, hknows⟩ := h.heed hm
      have hns := ih hknows
      rw [List.append_assoc, List.singleton_append] at hns
      rw [Draft.heedAll, he]
      rcases hns with ⟨hallowed, hok⟩ | ⟨hnot, herror⟩
      · exact .inl ⟨⟨hm, hallowed⟩, hok⟩
      · exact .inr ⟨fun hall => hnot hall.2, herror⟩
    · obtain ⟨fault, hfault⟩ := h.heed_eq_error hm
      refine .inr ⟨fun hall => hm hall.1, fault, ?_⟩
      rw [Draft.heedAll, hfault]
      rfl

/-- The first jump that leads nowhere is the first of all jumps that does. -/
theorem Knows.danglingJump?_eq (h : d.Knows ms) :
    d.names.danglingJump? = (ms.filterMap Mention.jump?).find? fun j =>
      ((ms.filterMap Mention.label?).lookup j.1).isNone := by
  rw [Names.danglingJump?, h.labels]
  exact h.jumps fun name => ((ms.filterMap Mention.label?).lookup name).isNone

theorem Knows.danglingJump?_eq_none_iff (h : d.Knows ms) :
    d.names.danglingJump? = none ↔ JumpsLand ms := by
  rw [h.danglingJump?_eq, List.find?_eq_none]
  refine forall₂_congr ?_
  intro jump _
  rw [Names.isNone_lookup_iff, Classical.not_not]

/-- Heeding mentions writes nothing to the body. -/
theorem body_heed (hm : d.heed m = .ok e) : e.listing.body = d.listing.body := by
  cases m with
  | use t =>
    rw [Draft.heed] at hm
    split at hm
    · obtain rfl := Except.ok.inj hm
      rfl
    · cases hm
  | assign t =>
    obtain rfl := Except.ok.inj hm
    unfold declareVariable
    split <;> rfl
  | label t =>
    rw [Draft.heed, declareLabel] at hm
    cases hfirst : d.names.labels.lookup t.text with
    | some first =>
      rw [hfirst] at hm
      cases hm
    | none =>
      rw [hfirst] at hm
      obtain rfl := Except.ok.inj hm
      rfl
  | jump t =>
    obtain rfl := Except.ok.inj hm
    rfl

theorem body_heedAll (hms : d.heedAll ms = .ok e) : e.listing.body = d.listing.body := by
  induction ms generalizing d with
  | nil =>
    obtain rfl := Except.ok.inj hms
    rfl
  | cons m ms ih =>
    rw [Draft.heedAll] at hms
    cases hm : d.heed m with
    | error fault =>
      rw [hm] at hms
      cases hms
    | ok d' =>
      rw [hm] at hms
      rw [ih hms, body_heed hm]

end Draft
end PocketBasic

import PocketBasic.Draft

/-!
# What is known of names

A draft comes to know names in three ways: a variable is declared, a label is declared, and
a jump is recorded.  This file says what each of them does to the tables that are read off
the names.  Only the first jump to a label is kept, which makes no difference to what is
asked of jumps (`Names.find?_jump`).
-/

namespace PocketBasic

namespace Names

variable {n : Names} {name : String} {place : Location}

/-- A label is not found exactly if it is not declared. -/
theorem isNone_lookup_iff {labels : List (String × Location)} :
    (labels.lookup name).isNone = true ↔ name ∉ labels.map Prod.fst := by
  rw [Option.isNone_iff_eq_none, List.lookup_eq_none_iff]
  constructor
  · intro h hmem
    obtain ⟨label, hlabel, rfl⟩ := List.mem_map.mp hmem
    exact bne_iff_ne.mp (h label hlabel) rfl
  · intro h label hlabel
    refine bne_iff_ne.mpr fun heq => h ?_
    rw [heq]
    exact List.mem_map_of_mem hlabel

/-- A jump that is looked for by its label is found as if all jumps were kept. -/
theorem find?_jump (n : Names) (name : String) (place : Location) (p : String → Bool) :
    (n.jump name place).jumps.find? (fun j => p j.1) =
      (n.jumps.find? fun j => p j.1).or ([(name, place)].find? fun j => p j.1) := by
  unfold jump
  split
  · rename_i hknown
    cases hp : p name with
    | false =>
      rw [List.find?_cons_of_neg (by rw [hp]; exact Bool.false_ne_true), List.find?_nil,
        Option.or_none]
    | true =>
      obtain ⟨j, hj, hname⟩ := List.lookup_isSome_iff.mp hknown
      have hsome : (n.jumps.find? fun j => p j.1).isSome := by
        rw [List.find?_isSome]
        exact ⟨j, hj, by rw [← eq_of_beq hname, hp]⟩
      obtain ⟨found, hfound⟩ := Option.isSome_iff_exists.mp hsome
      rw [hfound, Option.some_or]
  · exact List.find?_append

@[simp] theorem variableNames_jump : (n.jump name place).variableNames = n.variableNames := by
  unfold jump
  split <;> rfl

@[simp] theorem labels_jump : (n.jump name place).labels = n.labels := by
  unfold jump
  split <;> rfl

end Names

namespace Draft

variable {d e : Draft} {name : String} {place : Location}

theorem variableNames_declareVariable :
    (d.declareVariable name).names.variableNames =
      if name ∈ d.names.variableNames then d.names.variableNames
      else d.names.variableNames ++ [name] := by
  unfold declareVariable
  split
  · rfl
  · exact Names.variableNames_declare_ofVariable _ _

theorem mem_variableNames_declareVariable {x : String} :
    x ∈ (d.declareVariable name).names.variableNames ↔ x ∈ d.names.variableNames ∨ x = name := by
  rw [variableNames_declareVariable]
  split
  · rename_i hname
    constructor
    · exact .inl
    · rintro (h | rfl)
      · exact h
      · exact hname
  · rw [List.mem_append, List.mem_singleton]

/-- What becomes of the names is a matter of the names. -/
theorem names_declareVariable (h : d.names = e.names) :
    (d.declareVariable name).names = (e.declareVariable name).names := by
  rw [declareVariable, declareVariable, h]
  split
  · exact h
  · rfl

@[simp] theorem target_declareVariable : (d.declareVariable name).target = d.target := by
  unfold declareVariable
  split <;> rfl

@[simp] theorem labels_declareVariable :
    (d.declareVariable name).names.labels = d.names.labels := by
  unfold declareVariable
  split
  · rfl
  · exact Names.labels_declare_ofVariable _ _

@[simp] theorem jumps_declareVariable :
    (d.declareVariable name).names.jumps = d.names.jumps := by
  unfold declareVariable
  split <;> rfl

theorem header_declareVariable :
    (d.declareVariable name).listing.header =
      if name ∈ d.names.variableNames then d.listing.header
      else d.listing.header ++ (declarationLine name ++ "\n") := by
  unfold declareVariable
  split <;> rfl

/-- A label is declared unless it was declared before. -/
theorem declareLabel_eq_ok (h : name ∉ d.names.labels.map Prod.fst) :
    d.declareLabel name place =
      .ok { d with names := d.names.declare (.ofLabel name place) } := by
  rw [← Names.isNone_lookup_iff, Option.isNone_iff_eq_none] at h
  rw [declareLabel, h]

theorem declareLabel_eq_error {first : Location} (h : d.names.labels.lookup name = some first) :
    d.declareLabel name place = .error (.duplicateLabel name (some first)) := by
  rw [declareLabel, h]

end Draft
end PocketBasic

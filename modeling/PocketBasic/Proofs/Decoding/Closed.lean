import PocketBasic.Proofs.Decoding.Braces
import PocketBasic.Proofs.Decoding.Names

/-!
# Translations are closed and balanced

A translation can be read line by line, and nothing has to be known of the source to see that it
is a whole: every variable in it is declared once, and is given a value before it is used; every
jump leads to one label; and its blocks are closed behind its last line and not before.

`linesOf` reads the lines behind the two opening ones.  `Line.Whole` says all this of lines, in
terms of the names in them and of the braces at their ends.

Main statement: the lines of the translation of an accepted source are whole
(`compile_whole`).
-/

namespace PocketBasic

/-- The lines of a translation, the two opening ones apart. -/
def linesOf (code : String) : List Line :=
  (((code.toList.splitOn '\n').drop preamble.length).map Line.ofText).dropLast

/-- The lines of a listing are those of its program. -/
theorem linesOf_listing (p : Program) (hspells : ∀ t ∈ p.tokens, t.kind.Spells t.text) :
    linesOf (unlines p.listing) = p.listingAsLines := by
  rw [linesOf, map_ofText_listing p hspells, List.dropLast_concat]

namespace Line

variable {lines lines' : List Line} {v name : String}

/-- A variable occurs in a statement. -/
def Occurs (lines : List Line) (v : String) : Prop := ∃ line ∈ lines, v ∈ line.mentioned

/-- Lines that are a whole, if they stand behind a line that opens a block. -/
structure Whole (lines : List Line) : Prop where
  /-- A variable that occurs has one declaration. -/
  declared (v : String) (h : Occurs lines v) : lines.count (.declaration v) = 1
  /-- No other variable has one. -/
  occurs (v : String) (h : .declaration v ∈ lines) : Occurs lines v
  /-- The first statement in which a variable occurs assigns to it what is told without it, or asks
  for its value. -/
  first (v : String) (h : Occurs lines v) :
    ∃ before line behind, lines = before ++ line :: behind ∧ ¬ Occurs before v ∧
      ((∃ value, line = .assign v value ∧ v ∉ namesIn value.toList) ∨
        line = .input v ∧ ∃ rest, behind = .assign v "0" :: .skip :: .closing :: rest)
  /-- A jump leads to one label. -/
  landed (name : String) (h : .jump name ∈ lines) : lines.count (.label name) = 1
  /-- No label stands twice. -/
  distinct (name : String) : lines.count (.label name) ≤ 1
  /-- Before the last line, the block is open. -/
  opened (before : List Line) (line : Line) (behind : List Line)
    (h : lines = before ++ line :: behind) : 0 < 1 + depth (before.map Line.text)
  /-- Behind the last line, it is closed. -/
  closed : 1 + depth (lines.map Line.text) = 0

/-! ## Counting lines -/

theorem count_label (lines : List Line) (name : String) :
    lines.count (.label name) = (lines.filterMap Line.label?).count name := by
  induction lines with
  | nil => rfl
  | cons line lines ih =>
    cases line with
    | label other =>
      have hlabels : (label other :: lines).filterMap label? = other :: lines.filterMap label? := rfl
      rw [hlabels, List.count_cons, List.count_cons, ih]
      simp
    | _ =>
      rw [List.filterMap_cons_none rfl, List.count_cons_of_ne Line.noConfusion, ih]

theorem count_declaration_map (names : List String) (v : String) :
    (names.map Line.declaration).count (.declaration v) = names.count v :=
  List.count_map_of_injective names _ (fun _ _ => Line.declaration.inj) v

theorem not_occurs_declarations (names : List String) (v : String) :
    ¬ Occurs (names.map .declaration) v := by
  rintro ⟨line, hline, hv⟩
  obtain ⟨name, -, rfl⟩ := List.mem_map.mp hline
  cases hv

theorem occurs_append : Occurs (lines ++ lines') v ↔ Occurs lines v ∨ Occurs lines' v := by
  simp only [Occurs, List.mem_append, or_and_right, exists_or]

end Line

/-! ## Listings are whole -/

section Listing

variable {p : Program} {v name : String}

/-- No declaration stands among the lines of a program. -/
theorem Program.declaration_not_mem (p : Program) (v : String) : .declaration v ∉ p.asLines := by
  let declared? : Line → Option String
    | .declaration name => some name
    | _ => none
  have hnone : p.asLines.filterMap declared? = p.mentions.filterMap fun _ => none := by
    refine p.filterMap_asLines (fun form => ?_) (fun _ _ => rfl) rfl fun _ => rfl
    rw [List.filterMap_none]
    cases form <;> rfl
  rw [List.filterMap_none, List.filterMap_eq_nil_iff] at hnone
  exact fun hmem => Option.some_ne_none v (hnone _ hmem)

/-- The first line of a program in which a variable occurs gives it a value and does not use it. -/
theorem Program.exists_first (hspells : ∀ t ∈ p.tokens, t.kind.Spells t.text)
    (huses : UsesAssigned p.mentions) (h : Line.Occurs p.asLines v) :
    ∃ before line behind, p.asLines = before ++ line :: behind ∧ ¬ Line.Occurs before v ∧
      v ∉ line.uses ∧ line.target? = some v := by
  have hassigned : Line.Assigned [] (p.asLines ++ []) :=
    p.assigned_asLines hspells huses trivial
  rw [List.append_nil] at hassigned
  obtain ⟨before, line, behind, hlines, hbefore, hline⟩ :=
    hassigned.exists_first List.not_mem_nil h
  exact ⟨before, line, behind, hlines, fun ⟨l, hl, hv⟩ => hbefore l hl hv, hline⟩

/-- The variables that occur in the lines of a program are those that it gives values. -/
theorem Program.occurs_iff (hspells : ∀ t ∈ p.tokens, t.kind.Spells t.text)
    (huses : UsesAssigned p.mentions) : Line.Occurs p.asLines v ↔ v ∈ p.targets := by
  constructor
  · intro h
    obtain ⟨before, line, behind, hlines, -, -, htarget⟩ := p.exists_first hspells huses h
    refine Program.mem_targets_iff.mpr (List.mem_filterMap.mpr ⟨line, ?_, htarget⟩)
    exact hlines ▸ List.mem_append_right _ List.mem_cons_self
  · intro h
    obtain ⟨value, hmem⟩ := Program.exists_assign h
    exact ⟨_, hmem, List.mem_append_right _ (List.mem_singleton_self v)⟩

theorem Program.occurs_listing : Line.Occurs p.listingAsLines v ↔ Line.Occurs p.asLines v := by
  have hlast : ¬ Line.Occurs [.finish, .closing] v := by
    rintro ⟨line, hline, hv⟩
    simp only [List.mem_cons, List.not_mem_nil, or_false] at hline
    rcases hline with rfl | rfl
    all_goals cases hv
  rw [listingAsLines, Line.occurs_append, Line.occurs_append]
  exact ⟨fun h => (h.resolve_left (Line.not_occurs_declarations _ v)).resolve_right hlast,
    fun h => .inr (.inl h)⟩

/-- The first line of a listing in which a variable occurs assigns to it or asks for its value. -/
theorem Program.exists_first_listing (hspells : ∀ t ∈ p.tokens, t.kind.Spells t.text)
    (huses : UsesAssigned p.mentions) (h : Line.Occurs p.listingAsLines v) :
    ∃ before line behind, p.listingAsLines = before ++ line :: behind ∧ ¬ Line.Occurs before v ∧
      ((∃ value, line = .assign v value ∧ v ∉ namesIn value.toList) ∨
        line = .input v ∧ ∃ rest, behind = .assign v "0" :: .skip :: .closing :: rest) := by
  obtain ⟨before, line, behind, hlines, hbefore, huses, htarget⟩ :=
    p.exists_first hspells huses (Program.occurs_listing.mp h)
  refine ⟨p.targets.eraseDups.map .declaration ++ before, line, behind ++ [.finish, .closing],
    ?_, ?_, ?_⟩
  · rw [listingAsLines, hlines]
    simp only [List.append_assoc, List.cons_append]
  · rw [Line.occurs_append]
    exact not_or.mpr ⟨Line.not_occurs_declarations _ v, hbefore⟩
  · cases line with
    | assign name value =>
      obtain rfl := Option.some.inj htarget
      exact .inl ⟨value, rfl, huses⟩
    | input name =>
      obtain rfl := Option.some.inj htarget
      obtain ⟨rest, rfl⟩ := p.inputsWhole_asLines before name behind hlines
      exact .inr ⟨rfl, rest ++ [.finish, .closing], rfl⟩
    | _ => cases htarget

theorem Program.count_declaration (p : Program) (v : String) :
    p.listingAsLines.count (.declaration v) = p.targets.eraseDups.count v := by
  have hbody := List.count_eq_zero.mpr (p.declaration_not_mem v)
  rw [listingAsLines, List.count_append, List.count_append, Line.count_declaration_map, hbody]
  rfl

theorem Program.count_label (p : Program) (name : String) :
    p.listingAsLines.count (.label name) = (p.labels.map Prod.fst).count name := by
  have hdeclarations : (p.targets.eraseDups.map Line.declaration).count (.label name) = 0 :=
    List.count_eq_zero.mpr fun hmem => by
      obtain ⟨other, -, hother⟩ := List.mem_map.mp hmem
      cases hother
  rw [listingAsLines, List.count_append, List.count_append, hdeclarations, Line.count_label,
    p.filterMap_label?, Nat.zero_add]
  rfl

theorem Program.jump_mem (h : .jump name ∈ p.listingAsLines) :
    name ∈ p.jumps.map Prod.fst := by
  rw [← p.filterMap_jump?]
  refine List.mem_filterMap.mpr ⟨.jump name, ?_, rfl⟩
  rcases List.mem_append.mp h with h | h
  · obtain ⟨other, -, hother⟩ := List.mem_map.mp h
    cases hother
  · exact (List.mem_append.mp h).resolve_right (by simp)

theorem Program.balanced_listing (p : Program) :
    Balanced ((p.targets.eraseDups.map Line.declaration ++ (p.asLines ++ [Line.finish])).map
      Line.text) := by
  have hdeclarations (names : List String) :
      Balanced ((names.map Line.declaration).map Line.text) := by
    induction names with
    | nil => exact .nil
    | cons name names ih =>
      exact (Balanced.single (Line.braceChange_text (.declaration name))).append ih
  rw [List.map_append, List.map_append]
  exact (hdeclarations _).append
    (p.balanced_asLines.append (.single (Line.braceChange_text .finish)))

/-- The lines of a listing are whole. -/
theorem Program.whole_listing (hspells : ∀ t ∈ p.tokens, t.kind.Spells t.text)
    (hkept : p.NamesKept) : Line.Whole p.listingAsLines := by
  have hoccurs {v : String} : Line.Occurs p.listingAsLines v ↔ v ∈ p.targets :=
    Program.occurs_listing.trans (p.occurs_iff hspells hkept.usesAssigned)
  have hsplit : p.listingAsLines =
      p.targets.eraseDups.map Line.declaration ++ (p.asLines ++ [.finish]) ++ [.closing] := by
    rw [listingAsLines, List.append_assoc, List.append_assoc]
    rfl
  have hdistinct : (p.labels.map Prod.fst).Nodup := hkept.labelsDistinct
  constructor
  case declared =>
    intro v h
    rw [p.count_declaration]
    exact List.count_eq_one_of_mem (nodup_eraseDups _) (List.mem_eraseDups.mpr (hoccurs.mp h))
  case occurs =>
    intro v h
    have hcount := List.count_pos_iff.mpr h
    rw [p.count_declaration, List.count_pos_iff, List.mem_eraseDups] at hcount
    exact hoccurs.mpr hcount
  case first => exact fun v h => p.exists_first_listing hspells hkept.usesAssigned h
  case landed =>
    intro name h
    obtain ⟨jump, hjump, rfl⟩ := List.mem_map.mp (Program.jump_mem h)
    rw [p.count_label]
    exact List.count_eq_one_of_mem hdistinct (hkept.jumpsLand jump hjump)
  case distinct =>
    intro name
    rw [p.count_label]
    exact List.nodup_iff_count_le_one.mp hdistinct name
  case opened =>
    intro before line behind h
    have hright : (before ++ line :: behind).map Line.text =
        before.map Line.text ++ line.text :: behind.map Line.text := List.map_append
    have htexts := congrArg (List.map Line.text) (hsplit.symm.trans h)
    rw [hright, List.map_append, List.map_singleton] at htexts
    exact p.balanced_listing.depth_pos htexts
  case closed =>
    rw [hsplit, List.map_append, depth_append, p.balanced_listing.depth_eq]
    decide

end Listing

/-! ## Trees and code -/

/-- A tree of an accepted source, and the code that the source is translated to. -/
structure Source.Tree.WrittenAs {s : Source} (tree : s.Tree) (code : String) : Prop where
  spells (t : Token) (h : t ∈ tree.program.tokens) : t.kind.Spells t.text
  namesKept : tree.program.NamesKept
  code_eq : code = unlines tree.program.listing
  lines_eq : linesOf code = tree.program.listingAsLines

/-- The code is written back from its lines. -/
theorem Source.Tree.WrittenAs.code_eq_lines {s : Source} {tree : s.Tree} {code : String}
    (h : tree.WrittenAs code) : code = unlines (preamble ++ (linesOf code).map Line.text) := by
  rw [h.lines_eq, ← Program.listing_eq, ← h.code_eq]

theorem nonempty_tree_of_compile {filename text : String} {c : Compiled}
    (h : compile filename text = .ok c) : Nonempty (Source.ofString filename text).Tree := by
  obtain ⟨d, hdraft, -⟩ := exists_draft_of_compile h
  exact Source.nonempty_tree (Source.clean_of_draft hdraft) hdraft

/-- An accepted source is translated to the listing of each of its trees. -/
theorem writtenAs_of_compile {filename text : String} {c : Compiled}
    (h : compile filename text = .ok c) (tree : (Source.ofString filename text).Tree) :
    tree.WrittenAs c.code := by
  obtain ⟨d, hdraft, rfl⟩ := exists_draft_of_compile h
  have hspells : ∀ t ∈ tree.program.tokens, t.kind.Spells t.text := fun t ht =>
    Source.spells_of_mem_tokens (tree.mem_tokens ht)
  have hcode : ((Source.ofString filename text).compiled d).code = unlines tree.program.listing :=
    (Source.knows_of_draft hdraft tree).2
  have hkept : tree.program.NamesKept := by
    rcases Source.draft_of_tree_cases (Source.clean_of_draft hdraft) tree with
      ⟨hkept, -⟩ | ⟨-, fault, hfault⟩
    · exact hkept
    · rw [hdraft] at hfault
      cases hfault
  exact ⟨hspells, hkept, hcode, hcode ▸ linesOf_listing _ hspells⟩

/-- The translation of an accepted source consists of the two opening lines and of lines that are
a whole. -/
theorem compile_whole {filename text : String} {c : Compiled}
    (h : compile filename text = .ok c) :
    c.code = unlines (preamble ++ (linesOf c.code).map Line.text) ∧
      (∀ line ∈ linesOf c.code, line.WellFormed) ∧ Line.Whole (linesOf c.code) := by
  obtain ⟨d, hdraft, rfl⟩ := exists_draft_of_compile h
  have hclean := Source.clean_of_draft hdraft
  obtain ⟨tree⟩ := Source.nonempty_tree hclean hdraft
  have hspells : ∀ t ∈ tree.program.tokens, t.kind.Spells t.text := fun t ht =>
    Source.spells_of_mem_tokens (tree.mem_tokens ht)
  have hcode : ((Source.ofString filename text).compiled d).code = unlines tree.program.listing :=
    (Source.knows_of_draft hdraft tree).2
  have hkept : tree.program.NamesKept := by
    rcases Source.draft_of_tree_cases hclean tree with ⟨hkept, -⟩ | ⟨-, fault, hfault⟩
    · exact hkept
    · rw [hdraft] at hfault
      cases hfault
  rw [hcode, linesOf_listing _ hspells, ← Program.listing_eq]
  exact ⟨rfl, Program.wellFormed_listingAsLines hspells, Program.whole_listing hspells hkept⟩

/-- A program with a string that looks like the end of the code. -/
theorem compile_whole_countdown :
    ∃ c, compile "a.tt" ("INPUT n\nLABEL up\nIF n > 0 THEN\nPRINT \"\x7d\"\n" ++
        "LET n = n - 1\nGOTO up\nENDIF") = .ok c ∧
      linesOf c.code = [.declaration "n", .input "n", .assign "n" "0", .skip, .closing, .label "up",
        .opening .conditional "n>0", .printString "\x7d", .assign "n" "n-1", .jump "up", .closing,
        .finish, .closing] ∧
      Line.Whole (linesOf c.code) := by
  have hc : compile "a.tt" ("INPUT n\nLABEL up\nIF n > 0 THEN\nPRINT \"\x7d\"\n" ++
      "LET n = n - 1\nGOTO up\nENDIF") = .ok ⟨"a.tt",
      "#include <stdio.h>\nint main(void)\x7b\nfloat n;\nif(0 == scanf(\"%f\", &n)) \x7b\nn = 0;\n" ++
        "scanf(\"%*s\");\n\x7d\nup:\nif(n>0)\x7b\nprintf(\"\x7d\\n\");\nn = n-1;\ngoto up;\n\x7d\n" ++
        "return 0;\n\x7d\n",
      27, ["n"], ["up"], none⟩ := by
    cbv
  exact ⟨_, hc, by cbv, (compile_whole hc).2.2⟩

end PocketBasic

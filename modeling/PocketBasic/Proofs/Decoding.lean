import PocketBasic.Proofs.Decoding.Programs

/-!
# A translation tells its source, layout apart

The listing of a program is the two opening lines, the declarations, the lines of the program and
the two closing lines.  All of them but the opening lines are read back, so the skeleton of a
source is a function of its translation (`skeleton_eq_decode`).

Main statement: accepted sources with the same translation have the same skeleton
(`skeleton_eq_of_code_eq`).
-/

namespace PocketBasic

/-! ## Declarations -/

theorem filterMap_target?_uses (ts : List Token) :
    (ts.map Mention.use).filterMap Mention.target? = [] := by
  rw [List.filterMap_eq_nil_iff]
  intro m hm
  obtain ⟨t, -, rfl⟩ := List.mem_map.mp hm
  rfl

theorem Form.exists_assign {form : Form} {name : String}
    (h : name ∈ form.mentions.filterMap Mention.target?) :
    ∃ value, Line.assign name value ∈ form.asLines := by
  cases form with
  | printString | label | jump => cases h
  | printValue word value =>
    rw [mentions, filterMap_target?_uses] at h
    cases h
  | assign word t equals value =>
    rw [mentions, List.filterMap_append, filterMap_target?_uses] at h
    obtain rfl := List.mem_singleton.mp h
    exact ⟨_, List.mem_cons_self⟩
  | input word t =>
    obtain rfl := List.mem_singleton.mp h
    exact ⟨_, List.mem_cons_of_mem _ List.mem_cons_self⟩

/-- A variable that a program gives a value is assigned to on a line. -/
theorem Program.exists_assign {p : Program} {name : String} (h : name ∈ p.targets) :
    ∃ value, Line.assign name value ∈ p.asLines := by
  rw [targets] at h
  induction p using Program.induction with
  | nil =>
    rw [Program.mentions] at h
    cases h
  | simple form ends rest ih =>
    rw [Program.mentions, List.filterMap_append] at h
    rw [Program.asLines]
    rcases List.mem_append.mp h with h | h
    · exact (Form.exists_assign h).imp fun _ => List.mem_append_left _
    · exact (ih h).imp fun _ => List.mem_append_right _
  | block b head body foot rest ihbody ihrest =>
    rw [Program.mentions, List.filterMap_append, List.filterMap_append, filterMap_target?_uses,
      List.nil_append] at h
    rw [Program.asLines]
    rcases List.mem_append.mp h with h | h
    · exact (ihbody h).imp fun _ hmem => List.mem_cons_of_mem _ (List.mem_append_left _ hmem)
    · exact (ihrest h).imp fun _ hmem =>
        List.mem_cons_of_mem _ (List.mem_append_right _ (List.mem_cons_of_mem _ hmem))

/-! ## Listings -/

/-- The lines of a listing behind the two opening ones. -/
def Program.listingAsLines (p : Program) : List Line :=
  p.targets.eraseDups.map .declaration ++ (p.asLines ++ [.finish, .closing])

theorem Program.listing_eq (p : Program) :
    p.listing = preamble ++ p.listingAsLines.map Line.text := by
  rw [listing, listingAsLines, lines_eq, List.map_append, List.map_append, List.map_map,
    List.append_assoc, List.append_assoc]
  rfl

theorem Program.wellFormed_listingAsLines {p : Program}
    (hspells : ∀ t ∈ p.tokens, t.kind.Spells t.text) :
    ∀ line ∈ p.listingAsLines, line.WellFormed := by
  intro line hline
  rcases List.mem_append.mp hline with hline | hline
  · obtain ⟨name, hname, rfl⟩ := List.mem_map.mp hline
    obtain ⟨value, hassign⟩ := exists_assign (List.mem_eraseDups.mp hname)
    exact (p.wellFormed hspells _ hassign).1
  · rcases List.mem_append.mp hline with hline | hline
    · exact p.wellFormed hspells line hline
    · simp only [List.mem_cons, List.not_mem_nil, or_false] at hline
      rcases hline with rfl | rfl
      · trivial
      · trivial

/-- The lines of a listing are read back.  Behind the last line end stands an empty line. -/
theorem map_ofText_listing (p : Program) (hspells : ∀ t ∈ p.tokens, t.kind.Spells t.text) :
    (((unlines p.listing).toList.splitOn '\n').drop preamble.length).map Line.ofText =
      p.listingAsLines ++ [Line.ofText []] := by
  have hwellFormed := Program.wellFormed_listingAsLines hspells
  have honeLine : ∀ line ∈ p.listing, OneLine line := by
    rw [p.listing_eq]
    intro line hline
    rcases List.mem_append.mp hline with hline | hline
    · exact (by decide : ∀ line ∈ preamble, OneLine line) line hline
    · obtain ⟨line, hmem, rfl⟩ := List.mem_map.mp hline
      exact Line.oneLine_text (hwellFormed line hmem)
  have hread : p.listingAsLines.map (fun line => Line.ofText line.text.toList) =
      p.listingAsLines :=
    (List.map_congr_left fun line hline => Line.ofText_text (hwellFormed line hline)).trans
      (List.map_id _)
  have hdrop (lines : List (List Char)) :
      (preamble.map String.toList ++ lines).drop preamble.length = lines := rfl
  rw [splitOn_unlines honeLine, p.listing_eq, List.map_append, List.append_assoc, hdrop,
    List.map_append, List.map_map, List.map_map, List.map_singleton]
  exact congrArg (· ++ _) hread

/-- The words of the program that a text is the translation of, layout apart. -/
def decode (code : String) : List (Kind × String) :=
  Line.program [] (((code.toList.splitOn '\n').drop preamble.length).map Line.ofText) ++
    [(.endOfInput, "")]

/-- A program is read back from its listing. -/
theorem decode_listing (p : Program) (hspells : ∀ t ∈ p.tokens, t.kind.Spells t.text) :
    decode (unlines p.listing) = p.condensed.map Token.word ++ [(.endOfInput, "")] := by
  rw [decode, map_ofText_listing p hspells, Program.listingAsLines, List.append_assoc,
    List.append_assoc, Line.program_declarations, Line.program_asLines p hspells, List.cons_append,
    Line.program, List.append_nil]

/-! ## Sources -/

namespace Source

variable {s : Source}

/-- The skeleton of a source with a tree is its condensed program and the end of the input. -/
theorem skeleton_of_tree (tree : s.Tree) :
    s.skeleton = tree.program.condensed.map Token.word ++ [(.endOfInput, "")] := by
  have hlast : tree.last.1.word = (.endOfInput, "") := by
    have hspells : tree.last.1.kind.Spells tree.last.1.text := by
      refine spells_of_mem_tokens (s := s) ?_
      rw [tree.tokens_eq]
      exact List.mem_append_right _ (List.mem_append_right _ (List.mem_singleton_self _))
    rw [tree.last.2] at hspells
    exact Prod.ext tree.last.2 hspells
  have hend : condenseBehind true [tree.last.1] = [tree.last.1] := by
    rw [condenseBehind, if_neg (tree.last.kind_ne Kind.noConfusion)]
    rfl
  rw [skeleton, tree.tokens_eq, condense, condenseBehind_newlines, condenseBehind_program, hend,
    List.map_append, List.map_singleton, hlast]

end Source

/-- The skeleton of an accepted source is read back from its translation. -/
theorem skeleton_eq_decode {filename text : String} {c : Compiled}
    (h : compile filename text = .ok c) :
    (Source.ofString filename text).skeleton = decode c.code := by
  obtain ⟨d, hdraft, rfl⟩ := exists_draft_of_compile h
  obtain ⟨tree⟩ := Source.nonempty_tree (Source.clean_of_draft hdraft) hdraft
  have hcode : ((Source.ofString filename text).compiled d).code = unlines tree.program.listing :=
    (Source.knows_of_draft hdraft tree).2
  rw [hcode, decode_listing _ fun t ht => Source.spells_of_mem_tokens (tree.mem_tokens ht),
    Source.skeleton_of_tree tree]

/-- Two accepted sources with the same translation have the same tokens, if line ends at the
beginning are dropped and every run of line ends counts as one. -/
theorem skeleton_eq_of_code_eq {filename filename' text text' : String} {c c' : Compiled}
    (h : compile filename text = .ok c) (h' : compile filename' text' = .ok c')
    (hcode : c.code = c'.code) :
    (Source.ofString filename text).skeleton = (Source.ofString filename' text').skeleton := by
  rw [skeleton_eq_decode h, skeleton_eq_decode h', hcode]

/-- A program that asks for a number and counts down from it, with and without empty lines and a
comment. -/
theorem skeleton_eq_of_code_eq_countdown :
    ∃ c c', compile "a.tt" "INPUT n\nWHILE n > 0 REPEAT\nLET n = n - -1\nENDWHILE" = .ok c ∧
      compile "b.tt" "\n# down\nINPUT n\nWHILE n>0 REPEAT\n\n LET n=n- -1\nENDWHILE\n\n" = .ok c' ∧
      c.code = "#include <stdio.h>\nint main(void)\x7b\nfloat n;\nif(0 == scanf(\"%f\", &n)) \x7b\n" ++
        "n = 0;\nscanf(\"%*s\");\n\x7d\nwhile(n>0)\x7b\nn = n--1;\n\x7d\nreturn 0;\n\x7d\n" ∧
      c.code = c'.code ∧
      (Source.ofString "a.tt" "INPUT n\nWHILE n > 0 REPEAT\nLET n = n - -1\nENDWHILE").skeleton =
        (Source.ofString "b.tt"
          "\n# down\nINPUT n\nWHILE n>0 REPEAT\n\n LET n=n- -1\nENDWHILE\n\n").skeleton := by
  have hc : compile "a.tt" "INPUT n\nWHILE n > 0 REPEAT\nLET n = n - -1\nENDWHILE" = .ok ⟨"a.tt",
      "#include <stdio.h>\nint main(void)\x7b\nfloat n;\nif(0 == scanf(\"%f\", &n)) \x7b\n" ++
        "n = 0;\nscanf(\"%*s\");\n\x7d\nwhile(n>0)\x7b\nn = n--1;\n\x7d\nreturn 0;\n\x7d\n",
      19, ["n"], [], none⟩ := by
    cbv
  have hc' : compile "b.tt" "\n# down\nINPUT n\nWHILE n>0 REPEAT\n\n LET n=n- -1\nENDWHILE\n\n" =
      .ok ⟨"b.tt",
        "#include <stdio.h>\nint main(void)\x7b\nfloat n;\nif(0 == scanf(\"%f\", &n)) \x7b\n" ++
          "n = 0;\nscanf(\"%*s\");\n\x7d\nwhile(n>0)\x7b\nn = n--1;\n\x7d\nreturn 0;\n\x7d\n",
        24, ["n"], [], none⟩ := by
    cbv
  exact ⟨_, _, hc, hc', rfl, rfl, skeleton_eq_of_code_eq hc hc' rfl⟩

end PocketBasic

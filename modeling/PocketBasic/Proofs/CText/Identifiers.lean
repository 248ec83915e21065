import PocketBasic.Proofs.Decoding.Closed
import PocketBasic.Proofs.Lexing.Writing

/-!
# Names of a program as names of C

Variables and labels are called in the translation what they are called in the program.  A name of
the language is an identifier of C, but the keywords that it must not be are those of the language,
in capitals, and those of C are in small letters.  So a keyword of C may come to stand where C wants
a name, and a variable may be called like one of the functions that the translation calls.

Main statement: the names in the declarations and labels of a translation are those of its source,
all of them are identifiers, and C can take one for a variable or a label exactly if it is none of
the words in question (`names_usable_iff`).  None of these words is kept out: each of them can be
the name of a variable and of a label (`exists_compile_of_mem`).
-/

namespace PocketBasic

namespace CText

/-! ## Words of C -/

/-- The keywords that are written with letters alone. -/
def plainKeywords : List String :=
  ["auto", "break", "case", "char", "const", "continue", "default", "do", "double", "else", "enum",
    "extern", "float", "for", "goto", "if", "inline", "int", "long", "register", "restrict",
    "return", "short", "signed", "sizeof", "static", "struct", "switch", "typedef", "union",
    "unsigned", "void", "volatile", "while"]

/-- The keywords that begin with an underscore. -/
def underscoreKeywords : List String :=
  ["_Alignas", "_Alignof", "_Atomic", "_Bool", "_Complex", "_Generic", "_Imaginary", "_Noreturn",
    "_Static_assert", "_Thread_local"]

/-- The functions that a translation calls. -/
def calledFunctions : List String := ["printf", "scanf"]

/-- What a label may be called. -/
structure IsLabelName (name : String) : Prop where
  identifier : isIdentifier name.toList = true
  not_plainKeyword : name ∉ plainKeywords
  not_underscoreKeyword : name ∉ underscoreKeywords

/-- What a variable may be called. -/
structure IsVariableName (name : String) : Prop extends IsLabelName name where
  not_function : name ∉ calledFunctions

variable {name : String}

theorem isIdentifier_of_isWord (h : IsWord name.toList) : isIdentifier name.toList = true := by
  obtain ⟨c, rest, hname, hc, hrest⟩ := h
  rw [hname, isIdentifier, hc, Bool.true_or, Bool.true_and, List.all_eq_true]
  intro d hd
  rw [isIdentifierChar, hrest d hd, Bool.true_or]

/-- A word begins with a letter. -/
theorem not_mem_underscoreKeywords (h : IsWord name.toList) : name ∉ underscoreKeywords := by
  have hunderscore : ∀ w ∈ underscoreKeywords, w.toList.head? = some '_' := by decide
  intro hmem
  obtain ⟨c, rest, hname, hc, -⟩ := h
  have hhead := hunderscore name hmem
  rw [hname] at hhead
  obtain rfl := Option.some.inj hhead
  cases hc

theorem isLabelName_iff (h : IsWord name.toList) : IsLabelName name ↔ name ∉ plainKeywords :=
  ⟨fun hname => hname.not_plainKeyword,
    fun hplain => ⟨isIdentifier_of_isWord h, hplain, not_mem_underscoreKeywords h⟩⟩

theorem isVariableName_iff (h : IsWord name.toList) :
    IsVariableName name ↔ name ∉ plainKeywords ∧ name ∉ calledFunctions :=
  ⟨fun hname => ⟨hname.not_plainKeyword, hname.not_function⟩,
    fun ⟨hplain, hfunction⟩ => ⟨(isLabelName_iff h).mpr hplain, hfunction⟩⟩

end CText

/-! ## The names in a translation -/

variable {name : String}

theorem Program.declaration_mem_listing {p : Program} :
    .declaration name ∈ p.listingAsLines ↔ name ∈ p.targets := by
  rw [← List.count_pos_iff, p.count_declaration, List.count_pos_iff, List.mem_eraseDups]

theorem Program.label_mem_listing {p : Program} :
    .label name ∈ p.listingAsLines ↔ name ∈ p.labels.map Prod.fst := by
  rw [← List.count_pos_iff, p.count_label, List.count_pos_iff]

/-- The declarations and labels in the translation of an accepted source are those of the variables
and labels of the source.  C can take such a name for a variable or a label exactly if it is no
keyword of C and, for a variable, none of the functions that the translation calls. -/
theorem names_usable_iff {filename text : String} {c : Compiled}
    (h : compile filename text = .ok c) :
    Nonempty (Source.ofString filename text).Tree ∧
      ∀ tree : (Source.ofString filename text).Tree,
        c.code = unlines (preamble ++ (linesOf c.code).map Line.text) ∧
        (∀ name, .declaration name ∈ linesOf c.code ↔ name ∈ tree.program.targets) ∧
        (∀ name, .label name ∈ linesOf c.code ↔ name ∈ tree.program.labels.map Prod.fst) ∧
        (∀ name ∈ tree.program.targets, CText.isIdentifier name.toList = true ∧
          (CText.IsVariableName name ↔
            name ∉ CText.plainKeywords ∧ name ∉ CText.calledFunctions)) ∧
        ∀ name ∈ tree.program.labels.map Prod.fst, CText.isIdentifier name.toList = true ∧
          (CText.IsLabelName name ↔ name ∉ CText.plainKeywords) := by
  refine ⟨nonempty_tree_of_compile h, fun tree => ?_⟩
  have hwritten := writtenAs_of_compile h tree
  have hwellFormed := Program.wellFormed_listingAsLines hwritten.spells
  refine ⟨hwritten.code_eq_lines, fun name => ?_, fun name => ?_, fun name hname => ?_,
    fun name hname => ?_⟩
  · rw [hwritten.lines_eq, Program.declaration_mem_listing]
  · rw [hwritten.lines_eq, Program.label_mem_listing]
  · have hword : IsWord name.toList := hwellFormed _ (Program.declaration_mem_listing.mpr hname)
    exact ⟨CText.isIdentifier_of_isWord hword, CText.isVariableName_iff hword⟩
  · have hword : IsWord name.toList := hwellFormed _ (Program.label_mem_listing.mpr hname)
    exact ⟨CText.isIdentifier_of_isWord hword, CText.isLabelName_iff hword⟩

/-- A source with three variables and two labels. -/
def namesText : String := "LABEL while\nLET int = 1\nINPUT printf\nLET n = 2\nLABEL up"

/-- The lines of its translation. -/
def namesLines : List Line :=
  [.declaration "int", .declaration "printf", .declaration "n", .label "while", .assign "int" "1",
    .input "printf", .assign "printf" "0", .skip, .closing, .assign "n" "2", .label "up", .finish,
    .closing]

/-- Two variables and a label that C has other uses for, and a variable and a label that it has
not. -/
theorem names_usable_iff_five_names :
    ∃ c, compile "names.tt" namesText = .ok c ∧ linesOf c.code = namesLines ∧
      ¬ CText.IsVariableName "int" ∧ ¬ CText.IsVariableName "printf" ∧
      ¬ CText.IsLabelName "while" ∧ CText.IsVariableName "n" ∧ CText.IsLabelName "up" := by
  obtain ⟨c, hc, hlines⟩ :
      ∃ c, compile "names.tt" namesText = .ok c ∧ linesOf c.code = namesLines :=
    ⟨⟨"names.tt", "#include <stdio.h>\nint main(void)\x7b\nfloat int;\nfloat printf;\nfloat n;\n" ++
      "while:\nint = 1;\nif(0 == scanf(\"%f\", &printf)) \x7b\nprintf = 0;\nscanf(\"%*s\");\n\x7d\n" ++
      "n = 2;\nup:\nreturn 0;\n\x7d\n", 19, ["int", "n", "printf"], ["while", "up"], none⟩,
      by cbv, by cbv⟩
  obtain ⟨⟨tree⟩, htree⟩ := names_usable_iff hc
  obtain ⟨-, hdeclared, hlabelled, hvariable, hlabel⟩ := htree tree
  rw [hlines] at hdeclared hlabelled
  have hint := hvariable "int" ((hdeclared _).mp (by decide))
  have hprintf := hvariable "printf" ((hdeclared _).mp (by decide))
  have hn := hvariable "n" ((hdeclared _).mp (by decide))
  have hwhile := hlabel "while" ((hlabelled _).mp (by decide))
  have hup := hlabel "up" ((hlabelled _).mp (by decide))
  exact ⟨c, hc, hlines, fun h => (hint.2.mp h).1 (by decide),
    fun h => (hprintf.2.mp h).2 (by decide), fun h => hwhile.2.mp h (by decide),
    hn.2.mpr (by decide), hup.2.mpr (by decide)⟩

/-! ## Every name is let through -/

/-- A source that asks for the value of a variable and sets a label of the same name. -/
def introducing (name : String) : List (Kind × String) :=
  [Keyword.asWord .INPUT, (.identifier, name), lineEnd, Keyword.asWord .LABEL, (.identifier, name)]

theorem exists_tree_introducing (filename : String) (h : Kind.identifier.Spells name) :
    (Source.ofString filename (written (introducing name))).tokenize.failure = none ∧
      ∃ (tree : (Source.ofString filename (written (introducing name))).Tree) (asked set : Token),
        tree.program.mentions = [.assign asked, .label set] ∧ asked.text = name ∧
          set.text = name := by
  have hname : WellFormed .identifier name := .identifier h.1 h.2
  have hwords : ∀ word ∈ introducing name, WellFormed word.1 word.2 := by
    simpa [introducing, Keyword.asWord, lineEnd, hname] using
      ⟨WellFormed.keyword .INPUT, WellFormed.newline, WellFormed.keyword .LABEL⟩
  obtain ⟨hclean, htokens⟩ := Source.tokenize_of_wellFormed filename hwords
  generalize hread : (Source.ofString filename (written (introducing name))).tokenize.tokens = ts
    at htokens
  simp only [introducing, List.cons_append, List.nil_append, List.map_eq_cons_iff,
    List.map_eq_nil_iff] at htokens
  obtain ⟨input, _, rfl, hinput, asked, _, rfl, hasked, ends, _, rfl, hends, label, _, rfl,
    hlabel, set, _, rfl, hset, ends', _, rfl, hends', last, _, rfl, hlast, rfl⟩ := htokens
  let tree : (Source.ofString filename (written (introducing name))).Tree :=
    { blanks := []
      program := [
        .simple (.input ⟨input, congrArg Prod.fst hinput⟩ ⟨asked, congrArg Prod.fst hasked⟩)
          ⟨⟨ends, congrArg Prod.fst hends⟩, []⟩,
        .simple (.label ⟨label, congrArg Prod.fst hlabel⟩ ⟨set, congrArg Prod.fst hset⟩)
          ⟨⟨ends', congrArg Prod.fst hends'⟩, []⟩]
      last := ⟨last, congrArg Prod.fst hlast⟩
      tokens_eq := by simp [hread, leafTokens, Program.tokens, Form.tokens, LineEnds.tokens] }
  exact ⟨hclean, tree, asked, set, by simp [tree, Program.mentions, Form.mentions],
    congrArg Prod.snd hasked, congrArg Prod.snd hset⟩

/-- Every name of the language can be the name of a variable and of a label, the keywords of C and
its functions with it. -/
theorem exists_compile_introducing (filename : String) (h : Kind.identifier.Spells name) :
    ∃ c, compile filename (written (introducing name)) = .ok c ∧
      .declaration name ∈ linesOf c.code ∧ .label name ∈ linesOf c.code := by
  obtain ⟨hclean, tree, asked, set, hmentions, rfl, hset⟩ := exists_tree_introducing filename h
  have hkept : tree.program.NamesKept := by
    constructor
    -- nothing is used and nothing is jumped to
    · rintro before t after hsplit
      have hmem : .use t ∈ [Mention.assign asked, .label set] := by
        rw [← hmentions, hsplit]
        exact List.mem_append_right _ List.mem_cons_self
      simp at hmem
    · rw [hmentions]
      exact List.nodup_singleton _
    · rw [hmentions]
      exact List.forall_mem_nil _
  rcases Source.draft_of_tree_cases hclean tree with ⟨-, d, hd⟩ | ⟨hnot, -⟩
  · have hc : compile filename (written (introducing asked.text)) = .ok
        ((Source.ofString filename (written (introducing asked.text))).compiled d) := by
      rw [compile_eq, hd]
      rfl
    refine ⟨_, hc, ?_⟩
    rw [(writtenAs_of_compile hc tree).lines_eq, Program.declaration_mem_listing,
      Program.label_mem_listing, Program.targets, Program.labels, hmentions]
    exact ⟨List.mem_singleton_self _, hset ▸ List.mem_singleton_self _⟩
  · exact absurd hkept hnot

/-- No keyword of C and none of its functions is a keyword of the language. -/
theorem spells_of_mem (h : name ∈ CText.plainKeywords ++ CText.calledFunctions) :
    Kind.identifier.Spells name := by
  have hlower : ∀ w ∈ CText.plainKeywords ++ CText.calledFunctions,
      w.toList ≠ [] ∧ w.toList.all Char.isLower = true := by
    decide
  obtain ⟨hne, hall⟩ := hlower name h
  have halpha : ∀ c ∈ name.toList, c.isAlpha = true := fun c hc => by
    rw [Char.isAlpha, List.all_eq_true.mp hall c hc, Bool.or_true]
  obtain ⟨c, rest, hname⟩ := List.exists_cons_of_ne_nil hne
  rw [hname] at halpha hall
  obtain ⟨hc, hrest⟩ := List.forall_mem_cons.mp halpha
  refine ⟨⟨c, rest, hname, hc, fun d hd => ?_⟩, ?_⟩
  · rw [Char.isAlphanum, hrest d hd, Bool.true_or]
  · rintro k rfl
    rw [← hname] at hall
    cases k
    all_goals revert hall; decide

/-- Each keyword of C that is written with letters alone, and each function that the translation
calls, is let through as the name of a variable and as that of a label. -/
theorem exists_compile_of_mem (filename : String)
    (h : name ∈ CText.plainKeywords ++ CText.calledFunctions) :
    ∃ text c, compile filename text = .ok c ∧ .declaration name ∈ linesOf c.code ∧
      .label name ∈ linesOf c.code ∧ ¬ CText.IsVariableName name := by
  obtain ⟨c, hc, hdeclared, hlabelled⟩ := exists_compile_introducing filename (spells_of_mem h)
  refine ⟨_, c, hc, hdeclared, hlabelled, fun hname => ?_⟩
  rcases List.mem_append.mp h with h | h
  · exact hname.not_plainKeyword h
  · exact hname.not_function h

end PocketBasic

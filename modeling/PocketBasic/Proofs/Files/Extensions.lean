import PocketBasic.Compilation
import PocketBasic.Proofs.Lexing.Lexemes

/-!
# The extension of a source file

A path is refused before its file is read if its name does not have the extension of source files.
What counts is the last component of the path as it is written, and nothing else: neither the
directories before it nor the slashes and single dots behind it.

The last component may have a suffix, which is what stands from its last dot on, where this dot is
neither the first character nor the last one (`HasSuffix`).  So a hidden file has none, and of two
extensions only the second counts.  An extension that is more than a dot with other characters
behind it is that of no path.

Main statement: a path is accepted exactly if its last component carries the extension, and neither
its normal form, nor a slash behind it, nor a directory before it makes a difference
(`checkExtension_iff_carries`).
-/

namespace PocketBasic

variable {name stem ending extension text : List Char}

/-! ## Suffixes -/

/-- What stands in a name from its last dot on, where this dot is neither the first character nor
the last one. -/
inductive HasSuffix : List Char → List Char → Prop where
  | intro {stem ending : List Char} (hstem : stem ≠ []) (hending : ending ≠ [])
    (hdot : '.' ∉ ending) : HasSuffix (stem ++ '.' :: ending) ('.' :: ending)

theorem HasSuffix.ne_nil (h : HasSuffix name extension) : extension ≠ [] := by
  obtain ⟨-, -, -⟩ := h
  exact List.cons_ne_nil _ _

namespace Path

theorem suffixOf_append (hdot : '.' ∉ ending) : suffixOf (stem ++ '.' :: ending) =
    if stem = [] ∨ ending = [] then [] else '.' :: ending := by
  have hback : (stem ++ '.' :: ending).reverse = ending.reverse ++ '.' :: stem.reverse := by
    rw [List.reverse_append, List.reverse_cons, List.append_assoc, List.singleton_append]
  have hrun : ∀ c ∈ ending.reverse, decide (c ≠ '.') = true := fun c hc =>
    decide_eq_true fun h => hdot (h ▸ List.mem_reverse.mp hc)
  have hstop : Lexeme.NoneAhead (fun c => decide (c ≠ '.')) ('.' :: stem.reverse) :=
    Lexeme.noneAhead_cons.mpr (by decide)
  rw [suffixOf, hback, Lexeme.takeWhile_run hrun hstop, Lexeme.dropWhile_run hrun hstop]
  cases hstem : stem.reverse with
  | nil =>
    have hnil : stem = [] := List.reverse_eq_nil_iff.mp hstem
    exact (if_pos (.inl hnil)).symm
  | cons c before =>
    have hne : stem ≠ [] := by
      rintro rfl
      cases hstem
    simp only [List.reverse_eq_nil_iff, List.reverse_reverse, hne, false_or]

theorem suffixOf_of_not_mem (hdot : '.' ∉ name) : suffixOf name = [] := by
  have hrun : name.reverse.dropWhile (fun c => decide (c ≠ '.')) = [] :=
    List.dropWhile_eq_nil_iff.mpr fun c hc =>
      decide_eq_true fun h => hdot (h ▸ List.mem_reverse.mp hc)
  rw [suffixOf, hrun]

/-- A name with a dot in it has a last one. -/
theorem exists_last_dot (hdot : '.' ∈ name) :
    ∃ stem ending, name = stem ++ '.' :: ending ∧ '.' ∉ ending := by
  obtain ⟨before, behind, hback, hbefore⟩ :=
    List.eq_append_cons_of_mem (List.mem_reverse.mpr hdot)
  refine ⟨behind.reverse, before.reverse, ?_, fun h => hbefore (List.mem_reverse.mp h)⟩
  rw [← List.reverse_reverse name, hback, List.reverse_append, List.reverse_cons, List.append_assoc,
    List.singleton_append]

theorem suffixOf_of_hasSuffix (h : HasSuffix name extension) : suffixOf name = extension := by
  obtain ⟨hstem, hending, hdot⟩ := h
  rw [suffixOf_append hdot, if_neg (not_or.mpr ⟨hstem, hending⟩)]

theorem hasSuffix_suffixOf (h : suffixOf name ≠ []) : HasSuffix name (suffixOf name) := by
  by_cases hdot : '.' ∈ name
  · obtain ⟨stem, ending, rfl, hlast⟩ := exists_last_dot hdot
    rw [suffixOf_append hlast] at h ⊢
    split at h
    · exact absurd rfl h
    · rename_i hinner
      rw [if_neg hinner]
      exact .intro (not_or.mp hinner).1 (not_or.mp hinner).2 hlast
  · exact absurd (suffixOf_of_not_mem hdot) h

/-- What is told apart in a name is its suffix, or nothing if it has none. -/
theorem suffixOf_eq_iff : suffixOf name = extension ↔
    HasSuffix name extension ∨ extension = [] ∧ ∀ suffix, ¬ HasSuffix name suffix := by
  constructor
  · rintro rfl
    by_cases hnil : suffixOf name = []
    · refine .inr ⟨hnil, fun suffix h => ?_⟩
      rw [suffixOf_of_hasSuffix h] at hnil
      subst hnil
      exact h.ne_nil rfl
    · exact .inl (hasSuffix_suffixOf hnil)
  · rintro (h | ⟨rfl, hnone⟩)
    · exact suffixOf_of_hasSuffix h
    · by_contra hne
      exact hnone _ (hasSuffix_suffixOf hne)

end Path

/-- What an extension of source files can be: a dot and other characters behind it, no dots and no
slashes. -/
def IsExtension (extension : List Char) : Prop :=
  ∃ ending, extension = '.' :: ending ∧ ending ≠ [] ∧ ∀ c ∈ ending, c ≠ '.' ∧ c ≠ '/'

/-- A component has an extension for its suffix if it ends with it and is longer. -/
theorem hasSuffix_iff (hslash : '/' ∉ name) : HasSuffix name extension ↔
    IsExtension extension ∧ extension <:+ name ∧ extension.length < name.length := by
  constructor
  · rintro ⟨hstem, hending, hdot⟩
    refine ⟨⟨_, rfl, hending, fun c hc => ⟨?_, ?_⟩⟩, List.suffix_append _ _, ?_⟩
    · rintro rfl
      exact hdot hc
    · rintro rfl
      exact hslash (List.mem_append_right _ (List.mem_cons_of_mem _ hc))
    · rw [List.length_append]
      exact Nat.lt_add_of_pos_left (List.length_pos_iff.mpr hstem)
  · rintro ⟨⟨ending, rfl, hending, hplain⟩, ⟨stem, rfl⟩, hlonger⟩
    refine .intro ?_ hending fun hdot => (hplain '.' hdot).1 rfl
    rintro rfl
    exact Nat.lt_irrefl _ hlonger

/-! ## The last component -/

namespace Path

/-- The pieces of a written path between its slashes, without the empty ones and those that are a
dot. -/
def piecesOf (text : List Char) : List (List Char) := (text.splitOn '/').filter isComponent

theorem components_ofString (text : String) :
    (ofString text).components = (piecesOf text.toList).map String.ofList := rfl

theorem piecesOf_append_slash (text behind : List Char) :
    piecesOf (text ++ '/' :: behind) = piecesOf text ++ piecesOf behind := by
  rw [piecesOf, List.splitOn_append_cons_self, List.filter_append]
  rfl

theorem slash_not_mem_of_mem_piecesOf {piece : List Char} (h : piece ∈ piecesOf text) :
    '/' ∉ piece ∧ piece ≠ [] ∧ piece ≠ ['.'] := by
  obtain ⟨hmem, hcomponent⟩ := List.mem_filter.mp h
  refine ⟨?_, by simpa [isComponent] using hcomponent⟩
  clear h hcomponent
  induction hn : text.length using Nat.strongRecOn generalizing text with
  | ind n ih =>
    by_cases hslash : '/' ∈ text
    · obtain ⟨first, rest, rfl⟩ := List.append_of_mem hslash
      rw [List.length_append, List.length_cons] at hn
      rw [List.splitOn_append_cons_self, List.mem_append] at hmem
      rcases hmem with hmem | hmem
      · exact ih first.length (by omega) hmem rfl
      · exact ih rest.length (by omega) hmem rfl
    · rw [List.splitOn_eq_singleton hslash, List.mem_singleton] at hmem
      rwa [hmem]

/-- Components are the pieces of what they are joined to. -/
theorem piecesOf_intercalate {pieces : List (List Char)}
    (h : ∀ piece ∈ pieces, '/' ∉ piece ∧ piece ≠ [] ∧ piece ≠ ['.']) :
    piecesOf (['/'].intercalate pieces) = pieces := by
  cases pieces with
  | nil => rfl
  | cons piece pieces =>
    rw [piecesOf, List.splitOn_intercalate '/' (fun l hl => (h l hl).1) (List.cons_ne_nil _ _)]
    exact List.filter_eq_self.mpr fun l hl => by simp [isComponent, (h l hl).2]

/-! ### The normal form -/

variable {pieces : List (List Char)}

/-- Joined components do not begin with a slash. -/
theorem takeWhile_intercalate (h : ∀ piece ∈ pieces, '/' ∉ piece ∧ piece ≠ [] ∧ piece ≠ ['.']) :
    (['/'].intercalate pieces).takeWhile (· = '/') = [] := by
  rcases pieces with _ | ⟨piece, pieces⟩
  · rfl
  · obtain ⟨hslash, hne, -⟩ := h piece List.mem_cons_self
    obtain ⟨c, cs, rfl⟩ := List.exists_cons_of_ne_nil hne
    have hc : c ≠ '/' := by
      rintro rfl
      exact hslash List.mem_cons_self
    cases pieces with
    | nil => simp [hc]
    | cons next pieces => simp [hc]

theorem map_toList_ofList (pieces : List (List Char)) :
    (pieces.map String.ofList).map String.toList = pieces := by
  rw [List.map_map]
  exact List.map_id'' (fun _ => String.toList_ofList) pieces

/-- A path is written as its anchor and its joined components, the empty one apart. -/
theorem toList_toString {a : Anchor} (h : a ≠ .working ∨ pieces ≠ []) :
    (toString (Path.mk a (pieces.map String.ofList))).toList =
      a.text.toList ++ ['/'].intercalate pieces := by
  have htext : toString (Path.mk a (pieces.map String.ofList)) =
      a.text ++ String.intercalate "/" (pieces.map String.ofList) := by
    cases a with
    | working =>
      cases pieces with
      | nil => simp at h
      | cons piece pieces => rfl
    | root | doubleRoot => rfl
  rw [htext, String.toList_append, String.toList_intercalate, map_toList_ofList]
  rfl

/-- A path that is made of components is read again from its text. -/
theorem ofString_toString_of_pieces (a : Anchor)
    (h : ∀ piece ∈ pieces, '/' ∉ piece ∧ piece ≠ [] ∧ piece ≠ ['.']) :
    ofString (toString (Path.mk a (pieces.map String.ofList))) =
      Path.mk a (pieces.map String.ofList) := by
  by_cases hempty : a = .working ∧ pieces = []
  · obtain ⟨rfl, rfl⟩ := hempty
    rfl
  have hwritten : a ≠ .working ∨ pieces ≠ [] := by
    rwa [not_and_or] at hempty
  have hslashes : (a.text.toList ++ ['/'].intercalate pieces).takeWhile (· = '/') =
      a.text.toList := by
    have hanchor : a.text.toList.all (· = '/') = true := by
      cases a
      all_goals rfl
    rw [List.takeWhile_append_of_pos (List.all_eq_true.mp hanchor), takeWhile_intercalate h,
      List.append_nil]
  have hpieces : piecesOf (a.text.toList ++ ['/'].intercalate pieces) = pieces := by
    cases a with
    | working => exact piecesOf_intercalate h
    | root => exact (piecesOf_append_slash [] _).trans (piecesOf_intercalate h)
    | doubleRoot => exact (piecesOf_append_slash ['/'] _).trans (piecesOf_intercalate h)
  rw [ofString, toList_toString hwritten, hslashes]
  show Path.mk _ ((piecesOf _).map String.ofList) = _
  rw [hpieces]
  cases a
  all_goals rfl

/-- Writing a path in its normal form does not change it. -/
theorem ofString_toString (text : String) : ofString (toString (ofString text)) = ofString text :=
  ofString_toString_of_pieces _ fun _ hpiece => slash_not_mem_of_mem_piecesOf hpiece

/-- The last component of a written path, if it has any. -/
def lastPiece? (text : String) : Option (List Char) := (piecesOf text.toList).getLast?

theorem toList_name (text : String) : (ofString text).name.toList = (lastPiece? text).getD [] := by
  rw [name, components_ofString, lastPiece?, List.getLastD_eq_getLast?, List.getLast?_map]
  cases (piecesOf text.toList).getLast? with
  | none => rfl
  | some piece => exact String.toList_ofList

/-- The last component is the same for a path in its normal form, with a slash and perhaps a dot
behind it, and with a directory before it. -/
theorem lastPiece?_toString (text : String) :
    lastPiece? (toString (ofString text)) = lastPiece? text := by
  have h := congrArg components (ofString_toString text)
  rw [components_ofString, components_ofString] at h
  rw [lastPiece?, lastPiece?, ← map_toList_ofList (piecesOf _), h, map_toList_ofList]

theorem lastPiece?_append_slash (text : String) :
    lastPiece? (text ++ "/") = lastPiece? text ∧ lastPiece? (text ++ "/.") = lastPiece? text := by
  have hends : ∀ behind : List Char, piecesOf behind = [] →
      (piecesOf (text.toList ++ '/' :: behind)).getLast? = (piecesOf text.toList).getLast? := by
    intro behind h
    rw [piecesOf_append_slash, h, List.append_nil]
  constructor
  · rw [lastPiece?, String.toList_append]
    exact hends [] rfl
  · rw [lastPiece?, String.toList_append]
    exact hends ['.'] rfl

theorem lastPiece?_append_of_ne_nil (directory : String) {text : String}
    (h : (ofString text).components ≠ []) :
    lastPiece? (directory ++ "/" ++ text) = lastPiece? text := by
  have hpieces : piecesOf text.toList ≠ [] := fun hnil => h (by rw [components_ofString, hnil]; rfl)
  have hsplit : piecesOf (directory ++ "/" ++ text).toList =
      piecesOf directory.toList ++ piecesOf text.toList := by
    rw [String.toList_append, String.toList_append, List.append_assoc]
    exact piecesOf_append_slash directory.toList text.toList
  rw [lastPiece?, lastPiece?, hsplit, List.getLast?_append, List.getLast?_eq_some_getLast hpieces,
    Option.some_or]

end Path

/-! ## When a path is accepted -/

/-- A last component carries an extension: it ends with it and has more before it, or nothing is
asked for and it has no suffix. -/
def Carries (last : Option (List Char)) (extension : List Char) : Prop :=
  IsExtension extension ∧
      (∃ name, last = some name ∧ extension <:+ name ∧ extension.length < name.length) ∨
    extension = [] ∧ ∀ name, last = some name → ∀ suffix, ¬ HasSuffix name suffix

theorem suffix_eq_iff {text extension : String} :
    (Path.ofString text).suffix = extension ↔ Carries (Path.lastPiece? text) extension.toList := by
  have hslash : ∀ name, Path.lastPiece? text = some name → '/' ∉ name := fun name h =>
    (Path.slash_not_mem_of_mem_piecesOf (List.mem_of_getLast? h)).1
  rw [Path.suffix, ← String.toList_inj, String.toList_ofList, Path.toList_name,
    Path.suffixOf_eq_iff, Carries]
  cases hlast : Path.lastPiece? text with
  | none =>
    have hnone : ∀ suffix, ¬ HasSuffix [] suffix := fun suffix h =>
      h.ne_nil ((Path.suffixOf_of_hasSuffix h).symm.trans rfl)
    simp [hnone]
  | some name => simp [hasSuffix_iff (hslash name hlast)]

theorem checkExtension_eq_ok_iff {path : Path} {extension : String} :
    checkExtension path extension = .ok () ↔ path.suffix = extension := by
  unfold checkExtension
  split
  · rename_i h
    exact iff_of_true rfl h
  · rename_i h
    exact iff_of_false (fun heq => by cases heq) h

/-- A path that is written in another way: in its normal form, with a slash behind it and perhaps
with a dot behind that, or below a directory. -/
inductive Rewritten (text : String) : String → Prop where
  | normal : Rewritten text (toString (Path.ofString text))
  | slash : Rewritten text (text ++ "/")
  | dot : Rewritten text (text ++ "/.")
  | below (directory : String) (h : (Path.ofString text).components ≠ []) :
    Rewritten text (directory ++ "/" ++ text)

theorem Rewritten.lastPiece?_eq {text text' : String} (h : Rewritten text text') :
    Path.lastPiece? text' = Path.lastPiece? text := by
  cases h with
  | normal => exact Path.lastPiece?_toString text
  | slash => exact (Path.lastPiece?_append_slash text).1
  | dot => exact (Path.lastPiece?_append_slash text).2
  | below directory h => exact Path.lastPiece?_append_of_ne_nil directory h

/-- A path is accepted exactly if its last component carries the extension, and is refused with its
normal form else.  So it makes no difference to write the path in another way. -/
theorem checkExtension_iff_carries :
    (∀ text extension : String,
      (checkExtension (.ofString text) extension = .ok () ↔
        Carries (Path.lastPiece? text) extension.toList) ∧
      (¬ Carries (Path.lastPiece? text) extension.toList →
        checkExtension (.ofString text) extension =
          .error (.ofAccess (.wrongExtension (toString (Path.ofString text)) extension)))) ∧
    ∀ text text' extension : String, Rewritten text text' →
      (checkExtension (.ofString text') extension = .ok () ↔
        checkExtension (.ofString text) extension = .ok ()) := by
  refine ⟨fun text extension => ⟨?_, fun h => ?_⟩, fun text text' extension h => ?_⟩
  · rw [checkExtension_eq_ok_iff, suffix_eq_iff]
  · exact if_neg fun hsuffix => h (suffix_eq_iff.mp hsuffix)
  · rw [checkExtension_eq_ok_iff, checkExtension_eq_ok_iff, suffix_eq_iff, suffix_eq_iff,
      h.lastPiece?_eq]

/-- A hidden file has no suffix, whatever its directory is called, and a file keeps its extension
when it is called by a longer path. -/
theorem checkExtension_iff_carries_two_paths :
    ¬ Carries (Path.lastPiece? "a.tt//.tt/.") ".tt".toList ∧
      checkExtension (.ofString "a.tt//.tt/.") ".tt" =
        .error (.ofAccess (.wrongExtension "a.tt/.tt" ".tt")) ∧
      (Path.ofString "..tt").components ≠ [] ∧
      checkExtension (.ofString "d/../..tt") ".tt" = .ok () := by
  have hrefused : ¬ Carries (Path.lastPiece? "a.tt//.tt/.") ".tt".toList := fun h => by
    have hok := (checkExtension_iff_carries.1 _ _).1.mpr h
    cases hok
  have hcomponents : (Path.ofString "..tt").components ≠ [] := List.cons_ne_nil _ _
  have hfile : checkExtension (.ofString "..tt") ".tt" = .ok () := rfl
  exact ⟨hrefused, (checkExtension_iff_carries.1 _ _).2 hrefused, hcomponents,
    (checkExtension_iff_carries.2 _ _ ".tt" (.below "d/.." hcomponents)).mpr hfile⟩

end PocketBasic

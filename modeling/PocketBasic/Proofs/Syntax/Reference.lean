import PocketBasic.Draft
import PocketBasic.Proofs.Syntax.Tree

/-!
# What a program says, read off its tree

A program does two things: it names variables and labels, and it has a translation.
Both are read off the tree here, in two passes and without any state.

The names come as a list of mentions in the order of the source, those of a block
among the others.  An assignment mentions the variables of its expression before the
variable that it gives a value, so what stands before a mention in the list is what is
known when the mention is read.

The translation is a list of lines.
-/

namespace PocketBasic

/-! ## Mentions of names -/

/-- A mention of a name in a program, with the token that mentions it. -/
inductive Mention where
  /-- A variable that is used in an expression. -/
  | use (t : Token)
  /-- A variable that is given a value. -/
  | assign (t : Token)
  /-- A label that is declared. -/
  | label (t : Token)
  /-- A label that is jumped to. -/
  | jump (t : Token)
  deriving DecidableEq, Repr

namespace Mention

/-- The variable that is given a value. -/
def target? : Mention → Option String
  | assign t => some t.text
  | _ => none

/-- The label that is declared, with its place. -/
def label? : Mention → Option (String × Location)
  | label t => some (t.text, t.location)
  | _ => none

/-- The label that is jumped to, with the place of the jump. -/
def jump? : Mention → Option (String × Location)
  | jump t => some (t.text, t.location)
  | _ => none

end Mention

/-- The mentions of a simple statement. -/
def Form.mentions : Form → List Mention
  | printString _ _ => []
  | printValue _ value => value.uses.map .use
  | label _ name => [.label name.1]
  | jump _ name => [.jump name.1]
  | assign _ name _ value => value.uses.map .use ++ [.assign name.1]
  | input _ name => [.assign name.1]

/-- The mentions of a program, in the order of the source. -/
def Program.mentions : Program → List Mention
  | [] => []
  | .simple form _ :: rest => form.mentions ++ mentions rest
  | .block _ head body _ :: rest =>
    head.test.uses.map .use ++ mentions body ++ mentions rest

/-- The variables that a program gives values to, in the order of the source and as often
as it does so. -/
def Program.targets (p : Program) : List String := p.mentions.filterMap Mention.target?

/-- The labels that a program declares with their places, in the order of the source. -/
def Program.labels (p : Program) : List (String × Location) := p.mentions.filterMap Mention.label?

/-- The labels that a program jumps to with the places of the jumps, in the order of the
source. -/
def Program.jumps (p : Program) : List (String × Location) := p.mentions.filterMap Mention.jump?

/-! ## The translation -/

/-- The texts of tokens, with nothing between them. -/
def joinTexts (ts : List Token) : String := String.join (ts.map Token.text)

/-- Lines, each with a line end behind it. -/
def unlines (lines : List String) : String := String.join (lines.map (· ++ "\n"))

theorem joinTexts_cons (t : Token) (ts : List Token) :
    joinTexts (t :: ts) = t.text ++ joinTexts ts := by
  rw [joinTexts, List.map_cons, String.join_cons, joinTexts]

theorem joinTexts_append (ts us : List Token) :
    joinTexts (ts ++ us) = joinTexts ts ++ joinTexts us := by
  rw [joinTexts, List.map_append, String.join_append, joinTexts, joinTexts]

theorem joinTexts_singleton (t : Token) : joinTexts [t] = t.text := by
  rw [joinTexts_cons, joinTexts, List.map_nil, String.join_nil, String.append_empty]

theorem unlines_cons (line : String) (lines : List String) :
    unlines (line :: lines) = line ++ "\n" ++ unlines lines := by
  rw [unlines, List.map_cons, String.join_cons, unlines]

theorem unlines_append (lines lines' : List String) :
    unlines (lines ++ lines') = unlines lines ++ unlines lines' := by
  rw [unlines, List.map_append, String.join_append, unlines, unlines]

theorem unlines_singleton (line : String) : unlines [line] = line ++ "\n" := by
  rw [unlines_cons, unlines, List.map_nil, String.join_nil, String.append_empty]

/-! ### Lines of a text -/

/-- A text with no line end in it. -/
def OneLine (text : String) : Prop := '\n' ∉ text.toList

instance (text : String) : Decidable (OneLine text) :=
  inferInstanceAs (Decidable ('\n' ∉ text.toList))

@[simp] theorem oneLine_append {text text' : String} :
    OneLine (text ++ text') ↔ OneLine text ∧ OneLine text' := by
  simp [OneLine]

@[simp] theorem oneLine_ofList {cs : List Char} : OneLine (String.ofList cs) ↔ '\n' ∉ cs := by
  rw [OneLine, String.toList_ofList]

/-- What is written as lines is split into these lines, with nothing behind the last one. -/
theorem splitOn_unlines {lines : List String} (h : ∀ line ∈ lines, OneLine line) :
    (unlines lines).toList.splitOn '\n' = lines.map String.toList ++ [[]] := by
  induction lines with
  | nil => rfl
  | cons line lines ih =>
    have htext : (unlines (line :: lines)).toList =
        line.toList ++ '\n' :: (unlines lines).toList := by
      rw [unlines_cons, String.toList_append, String.toList_append, List.append_assoc]
      rfl
    have hfirst : line.toList.splitOn '\n' = [line.toList] :=
      List.splitOn_eq_singleton (h line List.mem_cons_self)
    rw [htext, List.splitOn_append_cons_self, hfirst, List.singleton_append,
      ih fun line hline => h line (List.mem_cons_of_mem _ hline), List.map_cons, List.cons_append]

/-! ### The lines of a program -/

/-- The lines that a simple statement is translated to. -/
def Form.lines : Form → List String
  | printString _ text => ["printf(\"" ++ text.1.text ++ "\\n\");"]
  | printValue _ value => ["printf(\"%.2f\\n\", (float)(" ++ joinTexts value.tokens ++ "));"]
  | label _ name => [name.1.text ++ ":"]
  | jump _ name => ["goto " ++ name.1.text ++ ";"]
  | assign _ name _ value => [name.1.text ++ " = " ++ joinTexts value.tokens ++ ";"]
  | input _ name =>
    ["if(0 == scanf(\"%f\", &" ++ name.1.text ++ ")) \x7b", name.1.text ++ " = 0;",
      "scanf(\"%*s\");", "\x7d"]

/-- The word with which the translation of a block begins. -/
def Block.cWord : Block → String
  | .conditional => "if"
  | .loop => "while"

/-- The lines that a program is translated to. -/
def Program.lines : Program → List String
  | [] => []
  | .simple form _ :: rest => form.lines ++ lines rest
  | .block b head body _ :: rest =>
    (b.cWord ++ "(" ++ joinTexts head.test.tokens ++ ")\x7b") :: lines body ++ "\x7d" :: lines rest

/-- The opening lines of every listing. -/
def preamble : List String := ["#include <stdio.h>", "int main(void)\x7b"]

/-- The closing lines of every listing. -/
def epilogue : List String := ["return 0;", "\x7d"]

/-- The whole translation of a program: a declaration for every variable that is given a
value, in the order of first assignments, stands before the translated statements. -/
def Program.listing (p : Program) : List String :=
  preamble ++ p.targets.eraseDups.map (fun name => "float " ++ name ++ ";") ++ p.lines ++ epilogue

/-! ## Rules of names -/

/-- Every variable that is used was given a value before. -/
def UsesAssigned (mentions : List Mention) : Prop :=
  ∀ before t after, mentions = before ++ .use t :: after →
    t.text ∈ before.filterMap Mention.target?

/-- No two labels have the same name. -/
def LabelsDistinct (mentions : List Mention) : Prop :=
  ((mentions.filterMap Mention.label?).map Prod.fst).Nodup

/-- Every jump leads to a label. -/
def JumpsLand (mentions : List Mention) : Prop :=
  ∀ jump ∈ mentions.filterMap Mention.jump?,
    jump.1 ∈ (mentions.filterMap Mention.label?).map Prod.fst

end PocketBasic

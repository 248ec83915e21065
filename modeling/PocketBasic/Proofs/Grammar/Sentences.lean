import PocketBasic.Proofs.Grammar.Recognition

/-!
# The sentences of the grammar

A sentence is what a source spells out in kinds of tokens: line ends, a program, and the end of
the input.  `Control.follow` reads kinds from a place on, and the control follows every phrase of
the grammar from the place where the phrase begins to the place where it ends (`Leads`).  That is
the converse of what recognition says, phrase by phrase.

A statement may begin at three places: behind the line ends at the beginning, behind those of
another statement, and where a statement was due already.  They differ only in what is done with
line ends, so a statement is followed from any of them (`Place.Ready`), and a program leads from
one of them to one of them.

Main statement: the sentences are what the control follows up to the end of the input, where it
finds the program complete (`isSentence_iff`).
-/

namespace PocketBasic
namespace Control

variable {bs : List Block} {c c' next : Control} {k : Kind} {ks : List Kind} {ts us : List Token}

/-! ## Following kinds -/

/-- Where reading goes on behind some kinds of tokens, if they fit. -/
def follow (c : Control) : List Kind → Option Control
  | [] => some c
  | k :: ks =>
    match c.react k with
    | .proceed next => next.follow ks
    | _ => none

theorem follow_append (c : Control) (ks ls : List Kind) :
    c.follow (ks ++ ls) = (c.follow ks).bind fun c => c.follow ls := by
  induction ks generalizing c with
  | nil => rfl
  | cons k ks ih =>
    rw [List.cons_append, follow, follow]
    cases c.react k with
    | complete => rfl
    | reject e => rfl
    | proceed next => exact ih next

theorem follow_cons (h : c.react k = .proceed next) (ks : List Kind) :
    c.follow (k :: ks) = next.follow ks := by
  rw [follow, h]

theorem exists_of_follow_cons (h : c.follow (k :: ks) = some c') :
    ∃ next, c.react k = .proceed next ∧ next.follow ks = some c' := by
  rw [follow] at h
  split at h
  · rename_i next hnext
    exact ⟨next, hnext, h⟩
  · cases h

/-- To accept tokens is to follow their kinds to the end of the input. -/
theorem accepts_iff : c.Accepts ts ↔
    ∃ c', c.follow (ts.map Token.kind) = some c' ∧ c'.react .endOfInput = .complete := by
  induction ts generalizing c with
  | nil =>
    constructor
    · exact fun h => ⟨c, rfl, h⟩
    · rintro ⟨c', hc', h⟩
      rwa [← Option.some.inj hc'] at h
  | cons t ts ih =>
    constructor
    · rintro ⟨next, hnext, hrest⟩
      rw [List.map_cons, follow_cons hnext]
      exact ih.mp hrest
    · rintro ⟨c', hc', hend⟩
      obtain ⟨next, hnext, hrest⟩ := exists_of_follow_cons hc'
      exact ⟨next, hnext, ih.mpr ⟨c', hrest, hend⟩⟩

/-- The control goes through the kinds of some tokens to another place. -/
def Leads (c : Control) (ts : List Token) (c' : Control) : Prop :=
  c.follow (ts.map Token.kind) = some c'

theorem Leads.append (h : c.Leads ts next) (h' : next.Leads us c') : c.Leads (ts ++ us) c' := by
  rw [Leads, List.map_append, follow_append, h]
  exact h'

theorem Leads.cons {p : Kind → Prop} {t : TokenOf p} (h : c.react t.1.kind = .proceed next)
    (h' : next.Leads ts c') : c.Leads (t.1 :: ts) c' := by
  rw [Leads, List.map_cons, follow_cons h]
  exact h'

theorem Leads.leaf {t : Terminal k} (h : c.react k = .proceed next) (h' : next.Leads ts c') :
    c.Leads (t.1 :: ts) c' :=
  Leads.cons (by rw [t.2]; exact h) h'

/-! ## Line ends -/

theorem leads_newlines (h : c.react .newline = .proceed c) (leaves : List (Terminal .newline)) :
    c.Leads (leafTokens leaves) c := by
  induction leaves with
  | nil => rfl
  | cons t leaves ih => exact .leaf h ih

/-- Wherever a line end leads to the next lines, so do more of them. -/
theorem leads_lineEnds {o : Bool} (h : c.react .newline = .proceed ⟨.blankLines o, bs⟩)
    (ends : LineEnds) : c.Leads ends.tokens ⟨.blankLines o, bs⟩ :=
  .leaf h (leads_newlines rfl ends.more)

/-! ## Expressions -/

/-- Operands with operators between them lead where their operands do, if their operators lead
back. -/
theorem leads_chain {q : Kind → Prop} {α : Type} {f : α → List Token}
    (hitem : ∀ a, c.Leads (f a) c') (hoperator : ∀ t : TokenOf q, c'.react t.1.kind = .proceed c)
    (chain : Chain q α) : c.Leads (chain.tokensWith f) c' := by
  induction chain with
  | last a => exact hitem a
  | link a operator rest ih => exact (hitem a).append (.cons (hoperator operator) ih)

theorem leads_primary (p : Purpose) {place : Place} (hplace : place = .operand p ∨ place = .signed p)
    (e : Primary) : Leads ⟨place, bs⟩ e.tokens ⟨.operator p, bs⟩ := by
  cases e with
  | number digits =>
    rcases hplace with rfl | rfl
    all_goals exact .leaf rfl rfl
  | name t =>
    rcases hplace with rfl | rfl
    all_goals exact .leaf rfl rfl

theorem leads_unary (p : Purpose) (u : Unary) :
    Leads ⟨.operand p, bs⟩ u.tokens ⟨.operator p, bs⟩ := by
  obtain ⟨sign, operand⟩ := u
  cases sign with
  | none => exact leads_primary p (.inl rfl) operand
  | some sign => exact .cons (if_pos sign.2) (leads_primary p (.inr rfl) operand)

theorem leads_expression (p : Purpose) (e : Expression) :
    Leads ⟨.operand p, bs⟩ e.tokens ⟨.operator p, bs⟩ := by
  have hfactor : ∀ t : TokenOf (·.isFactor),
      react ⟨.operator p, bs⟩ t.1.kind = .proceed ⟨.operand p, bs⟩ := fun t =>
    react_operator (by rw [Kind.isArithmetic_eq, t.2, Bool.or_true])
  have hsign : ∀ t : TokenOf (·.isSign),
      react ⟨.operator p, bs⟩ t.1.kind = .proceed ⟨.operand p, bs⟩ := fun t =>
    react_operator (by rw [Kind.isArithmetic_eq, t.2]; rfl)
  exact leads_chain (leads_chain (leads_unary p) hfactor) hsign e

/-- Behind a comparison, the word that opens the block ends the condition. -/
theorem react_opener (b : Block) : react ⟨.operator (.compared b), bs⟩ (.keyword b.opener) =
    .proceed ⟨.lineEnd true, b :: bs⟩ := by
  cases b <;> rfl

theorem leads_comparison (b : Block) (test : Comparison) :
    Leads ⟨.operand (.tested b), bs⟩ test.tokens ⟨.operator (.compared b), bs⟩ := by
  have hrest := leads_chain (c := ⟨.operand (.compared b), bs⟩) (leads_expression (.compared b))
    (fun t : TokenOf (·.isComparison) => react_comparison (.inr rfl) t.2) test.rest
  exact (leads_expression (.tested b) test.first).append
    (.cons (react_comparison (.inl rfl) test.operator.2) hrest)

end Control

/-! ## Statements -/

/-- A statement may begin at a place, behind line ends or without them. -/
def Place.Ready (place : Place) : Prop := ∀ k, k ≠ .newline → place.settle k = .statement

theorem Place.ready_beginning : Place.Ready .beginning := fun _ hk => if_neg hk

theorem Place.ready_statement : Place.Ready .statement := fun _ _ => rfl

theorem Place.ready_blankLines (o : Bool) : Place.Ready (.blankLines o) := fun _ hk => if_neg hk

namespace Control

variable {bs : List Block} {place : Place} {k : Kind} {next c' : Control} {ts : List Token}

/-- Such a place reads a token as the place before a statement does. -/
theorem react_of_ready (h : place.Ready) (hk : k ≠ .newline) :
    react ⟨place, bs⟩ k = react ⟨.statement, bs⟩ k := by
  rw [react, settle, h k hk, react, settle, Place.ready_statement k hk]

theorem Leads.word {w : Keyword} {t : Terminal (.keyword w)} (h : place.Ready)
    (hw : react ⟨.statement, bs⟩ (.keyword w) = .proceed next) (h' : next.Leads ts c') :
    Leads ⟨place, bs⟩ (t.1 :: ts) c' :=
  .leaf ((react_of_ready h Kind.noConfusion).trans hw) h'

/-- A value that is printed is followed from where a string might have stood. -/
theorem leads_printed (value : Expression) :
    Leads ⟨.printItem, bs⟩ value.tokens ⟨.operator .printed, bs⟩ := by
  have hvalue : Leads ⟨.operand .printed, bs⟩ value.tokens ⟨.operator .printed, bs⟩ :=
    leads_expression .printed value
  cases hts : value.tokens with
  | nil =>
    rw [hts] at hvalue
    cases hvalue
  | cons t ts =>
    rw [hts] at hvalue
    obtain ⟨next, hnext, hrest⟩ := exists_of_follow_cons hvalue
    have hk : t.kind ≠ .string := by
      intro hk
      rw [hk] at hnext
      cases hnext
    have hsettle : settle ⟨.printItem, bs⟩ t.kind = settle ⟨.operand .printed, bs⟩ t.kind := by
      rw [settle, settle, Place.settle, if_neg hk]
      rfl
    rw [react, ← hsettle] at hnext
    exact (follow_cons hnext _).trans hrest

theorem leads_form (h : place.Ready) (form : Form) (ends : LineEnds) :
    Leads ⟨place, bs⟩ (form.tokens ++ ends.tokens) ⟨.blankLines false, bs⟩ := by
  cases form with
  | printString word text => exact .word h rfl (.leaf rfl (leads_lineEnds rfl ends))
  | printValue word value =>
    exact .word h rfl ((leads_printed value).append (leads_lineEnds rfl ends))
  | label word name | jump word name | input word name =>
    exact .word h rfl (.leaf rfl (leads_lineEnds rfl ends))
  | assign word name equals value =>
    exact .word h rfl (.leaf rfl (.leaf rfl
      ((leads_expression .assigned value).append (leads_lineEnds rfl ends))))

theorem leads_head {b : Block} (h : place.Ready) (head : BlockHead b) :
    Leads ⟨place, bs⟩ head.tokens ⟨.blankLines true, b :: bs⟩ := by
  obtain ⟨word, test, opener, ends⟩ := head
  have hword : react ⟨.statement, bs⟩ (.keyword b.word) = .proceed ⟨.operand (.tested b), bs⟩ := by
    cases b <;> rfl
  exact .word h hword
    ((leads_comparison b test).append (.leaf (react_opener b) (leads_lineEnds rfl ends)))

/-- The word that closes a block ends its statements. -/
theorem react_closer (b : Block) : react ⟨.statement, b :: bs⟩ (.keyword b.closer) =
    .proceed ⟨.lineEnd false, bs⟩ := by
  cases b <;> rfl

theorem leads_foot {b : Block} (h : place.Ready) (foot : BlockEnd b) :
    Leads ⟨place, b :: bs⟩ foot.tokens ⟨.blankLines false, bs⟩ :=
  .word h (react_closer b) (leads_lineEnds rfl foot.ends)

/-- A program leads from where a statement may begin to where another one may begin. -/
theorem exists_leads_program (p : Program) (h : place.Ready) :
    ∃ place', place'.Ready ∧ Leads ⟨place, bs⟩ p.tokens ⟨place', bs⟩ := by
  induction p using Program.induction generalizing place bs with
  | nil =>
    rw [Program.tokens]
    exact ⟨place, h, rfl⟩
  | simple form ends rest ih =>
    obtain ⟨place', hplace', hrest⟩ := ih (Place.ready_blankLines false)
    refine ⟨place', hplace', ?_⟩
    rw [Program.tokens]
    exact (leads_form h form ends).append hrest
  | block b head body foot rest ihbody ihrest =>
    -- the word that closes the block is read where the body ends, with the block still open
    obtain ⟨inner, hinner, hbody⟩ := ihbody (Place.ready_blankLines true)
    obtain ⟨place', hplace', hrest⟩ := ihrest (Place.ready_blankLines false)
    refine ⟨place', hplace', ?_⟩
    rw [Program.tokens]
    exact (((leads_head h head).append hbody).append (leads_foot hinner foot)).append hrest

end Control

/-! ## Sentences -/

/-- Line ends, a program and the end of the input, in kinds of tokens. -/
def IsSentence (ks : List Kind) : Prop :=
  ∃ (blanks : List (Terminal .newline)) (p : Program),
    ks = (leafTokens blanks ++ p.tokens).map Token.kind ++ [.endOfInput]

/-- Some token of a kind. -/
def Token.ofKind (k : Kind) : Token := ⟨k, "", ⟨"", 0, 0⟩⟩

theorem map_kind_map_ofKind (ks : List Kind) : (ks.map Token.ofKind).map Token.kind = ks := by
  rw [List.map_map]
  exact List.map_id ks

/-- The sentences are what the control follows to the end of the input, where the program is
complete. -/
theorem isSentence_iff {ks : List Kind} : IsSentence ks ↔
    ∃ body c, ks = body ++ [.endOfInput] ∧ Control.start.follow body = some c ∧
      c.react .endOfInput = .complete := by
  constructor
  · rintro ⟨blanks, p, rfl⟩
    obtain ⟨place, hplace, hprogram⟩ : ∃ place : Place, place.Ready ∧
        Control.start.Leads p.tokens ⟨place, []⟩ :=
      Control.exists_leads_program p Place.ready_beginning
    refine ⟨_, _, rfl, (Control.leads_newlines rfl blanks).append hprogram, ?_⟩
    rw [Control.react_of_ready hplace Kind.noConfusion]
    rfl
  · rintro ⟨body, c, rfl, hbody, hend⟩
    have haccepts : Control.start.Accepts (body.map Token.ofKind) :=
      Control.accepts_iff.mpr ⟨c, by rw [map_kind_map_ofKind, hbody], hend⟩
    obtain ⟨blanks, p, htokens⟩ := Control.exists_tree_of_accepts haccepts
    exact ⟨blanks, p, by rw [← htokens, map_kind_map_ofKind]⟩

end PocketBasic

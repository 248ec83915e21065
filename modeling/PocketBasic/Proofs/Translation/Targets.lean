import PocketBasic.Proofs.CText.Phrases
import PocketBasic.Proofs.Faults.Progress
import PocketBasic.Proofs.Grammar.Prefixes

/-!
# What tokens declare

Two statements declare a variable.  An `INPUT` does it with its name.  A `LET` does it with its
value, and where a value ends is only seen from the token behind it.  So it takes the tokens that
have been read over and the one in hand to say what is declared (`Declares`).

A draft keeps the variable of a `LET` in mind while its value is read.  In the meantime, the tokens
read so far end with the word, the variable and part of a value (`Assigning`).  The draft therefore
stands behind a whole value exactly if those tokens end with a `LET` statement, and then the
variable that it keeps is that of the statement (`StandsBehind.endsInLet_iff`).

Main statement: reading one more token keeps this up (`StandsBehind.finish`).
-/

namespace PocketBasic

/-! ## Declarations -/

/-- Some tokens end with an `INPUT` statement for a variable. -/
inductive EndsInInput : List Token → String → Prop where
  | intro (before : List Token) (word : Terminal (.keyword .INPUT))
    (name : Terminal .identifier) : EndsInInput (before ++ [word.1, name.1]) name.1.text

/-- Some tokens end with a `LET` statement for a variable, or with so much of one that it might end
there. -/
inductive EndsInLet : List Token → String → Prop where
  | intro (before : List Token) (word : Terminal (.keyword .LET)) (name : Terminal .identifier)
    (equals : Terminal (.operator .assign)) (value : Expression) :
    EndsInLet (before ++ word.1 :: name.1 :: equals.1 :: value.tokens) name.1.text

/-- Tokens that have been read over declare a variable when the next token is in hand: they end with
an `INPUT` for it, or with a `LET` for it whose value does not go on. -/
def Declares (before : List Token) (next : Token) (name : String) : Prop :=
  EndsInInput before name ∨ EndsInLet before name ∧ ¬ next.kind.isArithmetic

/-- An expression is made of operands and operators only. -/
theorem Expression.kind_ne {k : Kind} (value : Expression) (hoperand : k.isOperand = false)
    (hoperator : ∀ o, k ≠ .operator o) : ∀ t ∈ value.tokens, t.kind ≠ k := by
  rintro t ht rfl
  rcases (CText.isPhrase_expression value).kinds t ht with h | ⟨o, h, -⟩
  · rw [hoperand] at h
    cases h
  · exact hoperator o h

/-- Behind the word of a `LET` statement, the statement holds no other such word. -/
theorem kind_ne_let {name : Terminal .identifier} {equals : Terminal (.operator .assign)}
    {value : Expression} : ∀ t ∈ name.1 :: equals.1 :: value.tokens, t.kind ≠ .keyword .LET := by
  intro t ht
  rcases List.mem_cons.mp ht with rfl | ht
  · exact name.kind_ne Kind.noConfusion
  rcases List.mem_cons.mp ht with rfl | ht
  · exact equals.kind_ne Kind.noConfusion
  · exact value.kind_ne rfl (fun _ => Kind.noConfusion) t ht

/-- Of two `LET` statements at the end of the same tokens, neither holds the other. -/
theorem name_eq_of_append {word word' : Terminal (.keyword .LET)}
    {name name' : Terminal .identifier} {equals equals' : Terminal (.operator .assign)}
    {value value' : Expression} {more : List Token}
    (h : word.1 :: name.1 :: equals.1 :: value.tokens =
      more ++ word'.1 :: name'.1 :: equals'.1 :: value'.tokens) : name.1 = name'.1 := by
  cases more with
  | nil => exact (List.cons.inj (List.cons.inj h).2).1
  | cons t more =>
    have hmem : word'.1 ∈ name.1 :: equals.1 :: value.tokens := by
      rw [(List.cons.inj h).2]
      exact List.mem_append_right _ List.mem_cons_self
    exact absurd word'.2 (kind_ne_let _ hmem)

/-- Tokens end with a `LET` for one variable only. -/
theorem EndsInLet.unique {ts : List Token} {x y : String} (h : EndsInLet ts x)
    (h' : EndsInLet ts y) : x = y := by
  obtain ⟨before, word, name, equals, value⟩ := h
  generalize hts : before ++ word.1 :: name.1 :: equals.1 :: value.tokens = ts at h'
  obtain ⟨before', word', name', equals', value'⟩ := h'
  rcases List.append_eq_append_iff.mp hts with ⟨more, -, hmore⟩ | ⟨more, -, hmore⟩
  · exact congrArg Token.text (name_eq_of_append hmore)
  · exact congrArg Token.text (name_eq_of_append hmore).symm

/-! ## Where the control stands -/

namespace Control

variable {bs : List Block} {c next : Control} {before : List Token} {t : Token} {name : String}

theorem exists_of_follow_concat {ks : List Kind} {k : Kind} (h : c.follow (ks ++ [k]) = some next) :
    ∃ c', c.follow ks = some c' ∧ c'.react k = .proceed next := by
  rw [follow_append, Option.bind_eq_some_iff] at h
  obtain ⟨c', hc', hk⟩ := h
  obtain ⟨c'', hreact, hrest⟩ := exists_of_follow_cons hk
  obtain rfl := Option.some.inj hrest
  exact ⟨c', hc', hreact⟩

/-- A name is read behind its keyword, and nowhere else. -/
theorem place_eq_iff_endsWith (h : start.follow (before.map Token.kind) = some c) {w : Keyword}
    {place : Place} (hw : w.namePlace? = some place) :
    c.place = place ↔ endsWith before w = true := by
  rcases List.eq_nil_or_concat before with rfl | ⟨front, t, rfl⟩
  · obtain rfl := Option.some.inj h
    rcases Keyword.namePlace_cases hw with ⟨rfl, rfl⟩ | ⟨rfl, rfl⟩ | ⟨rfl, rfl⟩ | ⟨rfl, rfl⟩
    all_goals decide
  · rw [List.concat_eq_append, List.map_append] at h
    obtain ⟨c', -, hreact⟩ := exists_of_follow_concat h
    rw [List.concat_eq_append, endsWith_concat, decide_eq_true_eq]
    exact (Step.of_reactSettled hreact).place_eq_iff hw

/-- The name that is read next stands right behind its keyword. -/
theorem exists_concat_of_endsWith {w : Keyword} (h : endsWith before w = true) :
    ∃ (front : List Token) (word : Terminal (.keyword w)), before = front ++ [word.1] := by
  rcases List.eq_nil_or_concat before with rfl | ⟨front, t, rfl⟩
  · cases h
  · rw [List.concat_eq_append, endsWith_concat, decide_eq_true_eq] at h
    exact ⟨front, ⟨t, h⟩, List.concat_eq_append⟩

/-- A token ends an `INPUT` statement exactly if it is read where the name of one is due. -/
theorem endsInInput_concat_iff (h : start.follow (before.map Token.kind) = some c)
    (hreact : c.react t.kind = .proceed next) :
    EndsInInput (before ++ [t]) name ↔ c.place.settle t.kind = .inputName ∧ name = t.text := by
  rw [settle_eq_namePlace_iff (w := .INPUT) rfl, place_eq_iff_endsWith h (w := .INPUT) rfl]
  constructor
  · intro hends
    generalize hts : before ++ [t] = ts at hends
    obtain ⟨front, word, name⟩ := hends
    have hlast : before ++ [t] = (front ++ [word.1]) ++ [name.1] := by
      rw [hts, List.append_assoc]
      rfl
    obtain ⟨rfl, ht⟩ := List.append_inj' hlast rfl
    obtain rfl := List.singleton_inj.mp ht
    exact ⟨by rw [endsWith_concat, decide_eq_true_eq, word.2], rfl⟩
  · rintro ⟨hends, rfl⟩
    have hplace := (place_eq_iff_endsWith h (w := .INPUT) rfl).mpr hends
    have hsettle := (settle_eq_namePlace_iff (k := t.kind) (w := .INPUT) rfl).mpr hplace
    have hk : t.kind = .identifier := by
      have hstep := Step.of_reactSettled hreact
      rw [hsettle] at hstep
      exact hstep.kind_of_namePlace (w := .INPUT) rfl
    obtain ⟨front, word, rfl⟩ := exists_concat_of_endsWith hends
    rw [List.append_assoc]
    exact .intro front word ⟨t, hk⟩

/-- Behind the words of a statement for a variable, its name is due. -/
theorem exists_of_follow_word {w : Keyword} {place : Place} (hw : w.namePlace? = some place)
    {word : Terminal (.keyword w)} {behind : List Token}
    (h : start.follow ((before ++ word.1 :: behind).map Token.kind) = some c) :
    ∃ bs, Leads ⟨place, bs⟩ behind c := by
  rw [List.map_append, follow_append, Option.bind_eq_some_iff] at h
  obtain ⟨c', -, hrest⟩ := h
  obtain ⟨⟨place', bs⟩, hreact, hbehind⟩ := exists_of_follow_cons hrest
  obtain rfl : place' = place :=
    ((Step.of_reactSettled hreact).place_eq_iff hw).mpr word.2
  exact ⟨bs, hbehind⟩

/-- Behind an `INPUT` statement, the end of the line is due. -/
theorem place_of_endsInInput (h : start.follow (before.map Token.kind) = some c)
    (hends : EndsInInput before name) : c.place = .lineEnd false := by
  obtain ⟨front, word, name⟩ := hends
  obtain ⟨bs, hname⟩ := exists_of_follow_word (w := .INPUT) rfl h
  have hends : Leads ⟨.inputName, bs⟩ [name.1] ⟨.lineEnd false, bs⟩ := .leaf rfl rfl
  obtain rfl := Option.some.inj (hends.symm.trans hname)
  rfl

/-- Behind a `LET` statement, its value may go on. -/
theorem place_of_endsInLet (h : start.follow (before.map Token.kind) = some c)
    (hends : EndsInLet before name) : c.place = .operator .assigned := by
  obtain ⟨front, word, name, equals, value⟩ := hends
  obtain ⟨bs, hname⟩ := exists_of_follow_word (w := .LET) rfl h
  have hends : Leads ⟨.assignedName, bs⟩ (name.1 :: equals.1 :: value.tokens)
      ⟨.operator .assigned, bs⟩ := .leaf rfl (.leaf rfl (leads_expression .assigned value))
  obtain rfl := Option.some.inj (hends.symm.trans hname)
  rfl

/-- What leads from where a value begins to where one may end, within a line, is a value. -/
theorem exists_expression_of_leads {part : List Token} (hpart : ∀ t ∈ part, t.kind ≠ .newline)
    {bs' : List Block} (h : Leads ⟨.operand .assigned, bs⟩ part ⟨.operator .assigned, bs'⟩) :
    ∃ value : Expression, part = value.tokens := by
  -- with a line end behind it, and what completes the program, it is accepted
  obtain ⟨ks, c', hks, hend⟩ : Completable ⟨.blankLines false, bs'⟩ :=
    completable_of_ready (Place.ready_blankLines false)
  obtain ⟨newline⟩ : Nonempty (Terminal .newline) := ⟨⟨Token.ofKind .newline, rfl⟩⟩
  have hnewline : react ⟨.operator .assigned, bs'⟩ .newline = .proceed ⟨.blankLines false, bs'⟩ :=
    rfl
  have haccepts : Accepts ⟨.operand .assigned, bs⟩ (part ++ newline.1 :: ks.map Token.ofKind) := by
    refine accepts_iff.mpr ⟨c', ?_, hend⟩
    rw [List.map_append, follow_append, h, List.map_cons, map_kind_map_ofKind, newline.2]
    exact (follow_cons hnewline ks).trans hks
  obtain ⟨value, rest, hrest, hbehind, hmore⟩ := haccepts.exists_expression
  have hends : Accepts ⟨.lineEnd false, bs⟩ rest := hbehind.of_value (.inr rfl) hmore
  obtain ⟨ends, later, rfl, -⟩ := hends.exists_lineEnds
  -- both lists are what stands before the first line end
  have hcut : ∀ (line : List Token) (t : Terminal .newline) (behind : List Token),
      (∀ u ∈ line, u.kind ≠ .newline) →
        (line ++ t.1 :: behind).takeWhile (fun u => u.kind ≠ .newline) = line := by
    intro line t behind hline
    rw [List.takeWhile_append_of_pos fun u hu => decide_eq_true (hline u hu),
      List.takeWhile_cons_of_neg (by simpa using t.2), List.append_nil]
  refine ⟨value, ?_⟩
  rw [← hcut part newline _ hpart, hrest]
  exact hcut value.tokens ends.first _ (value.kind_ne rfl fun _ => Kind.noConfusion)

end Control

/-! ## Statements that are being read -/

/-- Some tokens end with the beginning of a `LET` statement for a variable, and the control stands
behind them. -/
inductive Assigning : List Token → Control → String → Prop where
  | named (before : List Token) (word : Terminal (.keyword .LET)) (name : Terminal .identifier)
    (bs : List Block) : Assigning (before ++ [word.1, name.1]) ⟨.equalsSign, bs⟩ name.1.text
  | valued (before : List Token) (word : Terminal (.keyword .LET)) (name : Terminal .identifier)
    (equals : Terminal (.operator .assign)) {part : List Token}
    (hpart : ∀ t ∈ part, t.kind ≠ .newline) {bs : List Block} {c : Control}
    (h : Control.Leads ⟨.operand .assigned, bs⟩ part c) :
    Assigning (before ++ word.1 :: name.1 :: equals.1 :: part) c name.1.text

namespace Assigning

variable {before : List Token} {c next : Control} {t : Token} {x : String}

/-- Within a line, the beginning of a statement is read on. -/
theorem concat (h : Assigning before c x) (hreact : c.react t.kind = .proceed next)
    (hk : t.kind ≠ .newline) : Assigning (before ++ [t]) next x := by
  cases h with
  | named before word name bs =>
    obtain ⟨hequals, rfl⟩ := Control.eq_proceed_of_expect hreact
    rw [List.append_assoc]
    exact .valued before word name ⟨t, hequals⟩ (List.forall_mem_nil _) rfl
  | @valued before word name equals part hpart bs _ h =>
    have hnext : Control.Leads ⟨.operand .assigned, bs⟩ (part ++ [t]) next :=
      h.append (Control.follow_cons hreact [])
    have hline : ∀ u ∈ part ++ [t], u.kind ≠ .newline :=
      List.forall_mem_append.mpr ⟨hpart, List.forall_mem_singleton.mpr hk⟩
    rw [List.append_assoc]
    exact .valued before word name equals hline hnext

/-- Where a value may end, the tokens end with a statement. -/
theorem endsInLet (h : Assigning before c x) (hplace : c.place = .operator .assigned) :
    EndsInLet before x := by
  cases h with
  | named => cases hplace
  | @valued before word name equals part hpart bs _ h =>
    obtain ⟨place, bs'⟩ := c
    obtain rfl : place = .operator .assigned := hplace
    obtain ⟨value, rfl⟩ := Control.exists_expression_of_leads hpart h
    exact .intro before word name equals value

end Assigning

namespace Draft

variable {d e : Draft} {before : List Token} {t : Token} {next : Control} {x : String}

/-- A draft stands behind some tokens, and keeps the variable of the statement in mind that is being
read. -/
structure StandsBehind (d : Draft) (before : List Token) : Prop where
  control : Control.start.follow (before.map Token.kind) = some d.control
  assigning (h : d.control.place.assigns = true) : Assigning before d.control d.target

theorem standsBehind_start (names : Names) (listing : Listing) :
    (start names listing).StandsBehind [] where
  control := rfl
  assigning h := by cases h

/-- A draft stands where a value may end exactly if the tokens before it end with a `LET`
statement, and then it keeps the variable of the statement. -/
theorem StandsBehind.endsInLet_iff (h : d.StandsBehind before) :
    EndsInLet before x ↔ d.control.place = .operator .assigned ∧ x = d.target := by
  have hkept : d.control.place = .operator .assigned → EndsInLet before d.target := fun hplace =>
    (h.assigning (by rw [hplace]; rfl)).endsInLet hplace
  constructor
  · intro hends
    have hplace := Control.place_of_endsInLet h.control hends
    exact ⟨hplace, hends.unique (hkept hplace)⟩
  · rintro ⟨hplace, rfl⟩
    exact hkept hplace

/-- Reading one more token keeps up where a draft stands. -/
theorem StandsBehind.finish (h : d.StandsBehind before)
    (hreact : d.control.react t.kind = .proceed next)
    (hfinish : ((d.settle t.kind).write t).finish t next = .ok e) :
    e.StandsBehind (before ++ [t]) := by
  have hstep := Control.Step.of_reactSettled hreact
  obtain rfl : e.control = next := control_finish hfinish
  refine ⟨?_, fun hassigns => ?_⟩
  · rw [List.map_append, Control.follow_append, h.control]
    exact Control.follow_cons hreact []
  -- a line end would have ended the statement
  have hk : t.kind ≠ .newline := by
    intro hk
    rw [hk] at hstep
    rw [hstep.of_newline.1] at hassigns
    cases hassigns
  have hkept : e.target = if d.control.place.settle t.kind = .assignedName then t.text
      else (d.settle t.kind).target := (finished_of_finish hfinish).kept_eq
  by_cases hplace : d.control.place = .assignedName
  · have hsettle := (Control.settle_eq_namePlace_iff (k := t.kind) (w := .LET) rfl).mpr hplace
    rw [if_pos hsettle] at hkept
    obtain ⟨front, word, rfl⟩ := Control.exists_concat_of_endsWith
      ((Control.place_eq_iff_endsWith h.control (w := .LET) rfl).mp hplace)
    have hidentifier : t.kind = .identifier ∧ e.control = ⟨.equalsSign, d.control.blocks⟩ := by
      rw [hsettle] at hstep
      generalize t.kind = k at hstep
      generalize e.control = next at hstep
      cases hstep
      exact ⟨rfl, rfl⟩
    rw [hkept, hidentifier.2, List.append_assoc]
    exact .named front word ⟨t, hidentifier.1⟩ d.control.blocks
  · rw [hstep.assigns_iff hk hplace] at hassigns
    have hsettle : d.control.place.settle t.kind ≠ .assignedName :=
      fun hsettle => hplace ((Control.settle_eq_namePlace_iff (w := .LET) rfl).mp hsettle)
    have hgoes : ¬ (d.control.place = .operator .assigned ∧ ¬ t.kind.isArithmetic) :=
      fun hend => hk (Tracks.newline_of_assigned hstep hend.1 hend.2)
    rw [if_neg hsettle, (settle_of_not_assigned hgoes).2] at hkept
    rw [hkept]
    exact (h.assigning hassigns).concat hreact hk

end Draft
end PocketBasic

import PocketBasic.Proofs.ReferenceTranslation
import PocketBasic.Proofs.Translation.Steps
import PocketBasic.Proofs.Translation.Targets

/-!
# What a run declares

The names that are declared and the header of the listing are two things that are written together:
a variable that is new is added to both.  A `Ledger` is what has been added to them, and every
moment of a token has its part in it (`Draft.ledger_settle`, `Draft.ledger_finish`).

What is declared can also be told from the tokens.  Every token in hand has the tokens before it
that have been read over, the last of them with a fetch that has brought another token
(`Translation.inHand_of_handled`).  These moments are gone through in their order
(`momentsBehind`), and each of them declares a name or none (`DeclaredInTurn`).

Main statement: a run, however it ends, enters what is declared in the moments that it goes through
(`Translation.exists_declaredInTurn_run`).
-/

namespace PocketBasic

/-! ## Ledgers -/

/-- The variables that are declared, and the header of the listing. -/
structure Ledger where
  names : List String
  header : String

namespace Ledger

variable {l : Ledger} {xs ys : List String}

/-- Declares a variable, unless it is declared. -/
def enter (l : Ledger) (name : String) : Ledger :=
  if name ∈ l.names then l
  else ⟨l.names ++ [name], l.header ++ (Draft.declarationLine name ++ "\n")⟩

/-- Declares variables one after the other. -/
def enterAll (l : Ledger) (xs : List String) : Ledger := xs.foldl enter l

/-- Writes the opening lines of a program. -/
def opened (l : Ledger) : Ledger := { l with header := l.header ++ unlines preamble }

theorem enterAll_append (l : Ledger) (xs ys : List String) :
    l.enterAll (xs ++ ys) = (l.enterAll xs).enterAll ys := List.foldl_append

/-- Each variable counts where it is entered first. -/
theorem names_enterAll (h : l.names = xs.eraseDups) :
    (l.enterAll ys).names = (xs ++ ys).eraseDups := by
  induction ys generalizing l xs with
  | nil => rwa [List.append_nil]
  | cons y ys ih =>
    rw [← List.singleton_append, ← List.append_assoc]
    refine ih ?_
    have hmem : y ∈ l.names ↔ y ∈ xs := by rw [h, List.mem_eraseDups]
    rw [eraseDups_concat, enter]
    by_cases hy : y ∈ xs
    · rw [if_pos (hmem.mpr hy), if_pos hy, h]
    · rw [if_neg fun hl => hy (hmem.mp hl), if_neg hy, h]

/-- The new names and their lines are added at the end. -/
theorem exists_added (l : Ledger) (xs : List String) : ∃ added,
    (l.enterAll xs).names = l.names ++ added ∧
      (l.enterAll xs).header = l.header ++ unlines (added.map Draft.declarationLine) := by
  induction xs generalizing l with
  | nil => exact ⟨[], (List.append_nil _).symm, String.append_empty.symm⟩
  | cons x xs ih =>
    obtain ⟨added, hnames, hheader⟩ := ih (l.enter x)
    by_cases hx : x ∈ l.names
    · have henter : l.enter x = l := if_pos hx
      rw [henter] at hnames hheader
      refine ⟨added, ?_, ?_⟩
      · rw [← hnames, enterAll, List.foldl_cons, henter, enterAll]
      · rw [← hheader, enterAll, List.foldl_cons, henter, enterAll]
    · have henter : l.enter x = ⟨l.names ++ [x], l.header ++ (Draft.declarationLine x ++ "\n")⟩ :=
        if_neg hx
      refine ⟨x :: added, ?_, ?_⟩
      · rw [enterAll, List.foldl_cons, ← enterAll, hnames, henter, List.append_assoc,
          List.singleton_append]
      · rw [enterAll, List.foldl_cons, ← enterAll, hheader, henter, List.map_cons, unlines_cons]
        exact String.append_assoc

end Ledger

namespace Draft

variable {d e : Draft} {t : Token} {next : Control}

/-- What a draft has declared, and the header that it has written. -/
def ledger (d : Draft) : Ledger := ⟨d.names.variableNames, d.listing.header⟩

theorem ledger_declareVariable (name : String) :
    (d.declareVariable name).ledger = d.ledger.enter name := by
  rw [ledger, variableNames_declareVariable, header_declareVariable]
  by_cases hname : name ∈ d.names.variableNames
  · rw [if_pos hname, if_pos hname]
    exact (if_pos hname).symm
  · rw [if_neg hname, if_neg hname]
    exact (if_neg hname).symm

/-- The variable that is declared on the way to a token of a kind. -/
def due? (d : Draft) (k : Kind) : Option String :=
  if d.control.place = .operator .assigned ∧ ¬ k.isArithmetic then some d.target else none

/-- The variable that is declared when a token is finished. -/
def asked? (d : Draft) (t : Token) : Option String :=
  if d.control.place = .inputName then some t.text else none

/-- On the way to a token, the variable of a `LET` is declared and nothing else. -/
theorem ledger_settle (d : Draft) (k : Kind) :
    (d.settle k).ledger = d.ledger.enterAll (d.due? k).toList := by
  unfold due?
  by_cases h : d.control.place = .operator .assigned ∧ ¬ k.isArithmetic
  · have hsettled : d.control.place.settle k = .lineEnd false := by
      rw [h.1]
      exact if_neg h.2
    rw [if_pos h, settle, hsettled, h.1]
    exact ledger_declareVariable (d := d.emitLine ";") d.target
  · rw [if_neg h]
    have hsettling := d.control.place.settling_settle k
    unfold settle
    generalize d.control.place.settle k = settled at hsettling
    generalize d.control.place = place at hsettling h
    cases hsettling with
    | stay =>
      rw [close_self]
      rfl
    | blankLines o => cases o <;> rfl
    | assigned hk => exact absurd ⟨rfl, hk⟩ h
    | beginning | value | printed | opener => rfl

theorem ledger_write (d : Draft) (t : Token) : (d.write t).ledger = d.ledger := by
  unfold write
  split <;> rfl

/-- When a token is finished, the variable of an `INPUT` is declared and nothing else. -/
theorem ledger_finish (h : d.finish t next = .ok e) :
    e.ledger = d.ledger.enterAll (d.asked? t).toList := by
  obtain ⟨names, listing, ⟨place, blocks⟩, target⟩ := d
  cases place with
  | inputName =>
    obtain rfl := Except.ok.inj h
    exact ledger_declareVariable t.text
  | labelName =>
    rw [finish] at h
    dsimp only at h
    split at h
    · cases h
    · rename_i declared hlabel
      obtain rfl := Except.ok.inj h
      unfold declareLabel at hlabel
      split at hlabel
      · cases hlabel
      · obtain rfl := Except.ok.inj hlabel
        exact congrArg (Ledger.mk · listing.header) (Names.variableNames_declare_ofLabel _ _ _)
  | jumpName =>
    obtain rfl := Except.ok.inj h
    exact congrArg (Ledger.mk · listing.header) Names.variableNames_jump
  | statement =>
    rw [finish] at h
    dsimp only at h
    split at h <;> obtain rfl := Except.ok.inj h <;> rfl
  | _ =>
    obtain rfl := Except.ok.inj h
    rfl

theorem asked?_write (d : Draft) (t : Token) : (d.write t).asked? t = d.asked? t := by
  unfold write
  split <;> rfl

/-! ## One moment -/

variable {before : List Token} {o : Option String} {x : String}

/-- The variable that is due on the way to a token is that of a `LET` that ends there. -/
theorem StandsBehind.due?_eq_some_iff (h : d.StandsBehind before) :
    d.due? t.kind = some x ↔ EndsInLet before x ∧ ¬ t.kind.isArithmetic := by
  rw [h.endsInLet_iff, due?]
  split
  · rename_i hdue
    rw [Option.some_inj]
    exact ⟨fun hx => ⟨⟨hdue.1, hx.symm⟩, hdue.2⟩, fun hx => hx.1.2.symm⟩
  · rename_i hdue
    refine ⟨fun hx => ?_, fun hx => absurd ⟨hx.1.1, hx.2⟩ hdue⟩
    cases hx

/-- Where an `INPUT` ends, no `LET` does. -/
theorem StandsBehind.due?_eq_none (h : d.StandsBehind before) (hends : EndsInInput before x)
    (k : Kind) : d.due? k = none := by
  refine if_neg fun hdue => ?_
  rw [Control.place_of_endsInInput h.control hends] at hdue
  exact Place.noConfusion hdue.1

/-- With a token in hand, the variable of an `INPUT` is declared that has just been read over, or
that of a `LET` that ends. -/
theorem StandsBehind.declares_iff (h : d.StandsBehind before)
    (ho : ∀ x, EndsInInput before x ↔ o = some x) :
    Declares before t x ↔ o.or (d.due? t.kind) = some x := by
  rw [Declares, ho, ← h.due?_eq_some_iff]
  cases o with
  | none => simp
  | some y =>
    rw [h.due?_eq_none ((ho y).mpr rfl)]
    simp

/-- The variable that is asked for when a token is finished is that of the `INPUT` which the token
ends. -/
theorem StandsBehind.asked?_eq_some_iff (h : d.StandsBehind before)
    (hreact : d.control.react t.kind = .proceed next) :
    EndsInInput (before ++ [t]) x ↔ ((d.settle t.kind).write t).asked? t = some x := by
  rw [Control.endsInInput_concat_iff h.control hreact, asked?_write, asked?]
  show _ ↔ (if d.control.place.settle t.kind = .inputName then _ else _) = _
  split
  · rename_i hplace
    rw [and_iff_right hplace, Option.some_inj, eq_comm]
  · rename_i hplace
    refine ⟨fun hx => absurd hx.1 hplace, fun hx => ?_⟩
    cases hx

/-- The ledger of a draft on the way to a token has what is declared with the token in hand. -/
theorem StandsBehind.ledger_settle (h : d.StandsBehind before)
    (ho : ∀ x, EndsInInput before x ↔ o = some x) {l : Ledger} (hl : d.ledger = l.enterAll o.toList)
    (k : Kind) : (d.settle k).ledger = l.enterAll (o.or (d.due? k)).toList := by
  rw [Draft.ledger_settle, hl]
  cases o with
  | none => rfl
  | some y =>
    rw [h.due?_eq_none ((ho y).mpr rfl)]
    rfl

end Draft

/-! ## One round -/

/-- The tokens of a list, each with the tokens before it, behind others. -/
def momentsBehind (before : List Token) : List Token → List (List Token × Token)
  | [] => []
  | t :: ts => (before, t) :: momentsBehind (before ++ [t]) ts

/-- The names that are declared in some moments, in their order. -/
inductive DeclaredInTurn : List (List Token × Token) → List String → Prop where
  | nil : DeclaredInTurn [] []
  | cons {before : List Token} {next : Token} (o : Option String)
    (h : ∀ x, Declares before next x ↔ o = some x) {moments : List (List Token × Token)}
    {xs : List String} (hmoments : DeclaredInTurn moments xs) :
    DeclaredInTurn ((before, next) :: moments) (o.toList ++ xs)

theorem mem_momentsBehind {before before' ts : List Token} {t : Token} :
    (before', t) ∈ momentsBehind before ts ↔
      ∃ front behind, ts = front ++ t :: behind ∧ before' = before ++ front := by
  induction ts generalizing before with
  | nil => simp [momentsBehind]
  | cons u ts ih =>
    rw [momentsBehind, List.mem_cons, ih]
    constructor
    · rintro (h | ⟨front, behind, rfl, rfl⟩)
      · obtain ⟨rfl, rfl⟩ := Prod.mk.inj h
        exact ⟨[], ts, rfl, (List.append_nil _).symm⟩
      · exact ⟨u :: front, behind, rfl, List.append_assoc _ _ _⟩
    · rintro ⟨front, behind, hts, rfl⟩
      cases front with
      | nil =>
        obtain ⟨rfl, rfl⟩ := List.cons.inj hts
        exact .inl (by rw [List.append_nil])
      | cons v front =>
        obtain ⟨rfl, rfl⟩ := List.cons.inj hts
        exact .inr ⟨front, behind, rfl, List.append_cons _ _ _⟩

namespace DeclaredInTurn

variable {ms ms' : List (List Token × Token)} {xs xs' : List String}

theorem append (h : DeclaredInTurn ms xs) (h' : DeclaredInTurn ms' xs') :
    DeclaredInTurn (ms ++ ms') (xs ++ xs') := by
  induction h with
  | nil => exact h'
  | cons o hdeclares _ ih =>
    rw [List.append_assoc]
    exact .cons o hdeclares ih

theorem mem_iff (h : DeclaredInTurn ms xs) {x : String} :
    x ∈ xs ↔ ∃ m ∈ ms, Declares m.1 m.2 x := by
  induction h with
  | nil => simp
  | cons o hdeclares _ ih =>
    rw [List.mem_append, Option.mem_toList, ← hdeclares, ih, List.exists_mem_cons_iff]

end DeclaredInTurn

namespace Translation

/-- The tokens that are in hand, one after the other, until a translation is over.  All but the last
of them have been read over. -/
def handled (t : Translation) : List Token :=
  match _h : t.step with
  | .running next => t.current :: next.handled
  | .complete _ => [t.current]
  | .failed _ _ => [t.current]
termination_by t.pending
decreasing_by exact pending_step_lt _h

/-- What comes of a step, with what is declared in it.  If the translation is over, that is what is
due on the way to the token in hand, and nothing else. -/
inductive Outcome (t : Translation) : Step → Prop where
  | readOver {next : Control} {d : Draft}
    (hreact : t.control.react t.current.kind = .proceed next)
    (hfetch : (t.withDraft (t.settled.write t.current)).fetch = (none, t.fetched))
    (hfinish : (t.settled.write t.current).finish t.current next = .ok d) :
    Outcome t (.running (t.fetched.withDraft d))
  | complete {u : Translation} (h : u.ledger = t.settled.ledger) : Outcome t (.complete u)
  | failed {fault : Diagnostic} {u : Translation} (h : u.ledger = t.settled.ledger) :
    Outcome t (.failed fault u)

variable {t u : Translation} {next : Control}

theorem outcome_conclude (t : Translation) : Outcome t (t.conclude t.settled) := by
  unfold conclude
  cases hconclude : t.settled.conclude with
  | error jump => exact .failed rfl
  | ok d =>
    unfold Draft.conclude at hconclude
    split at hconclude
    · cases hconclude
    · obtain rfl := Except.ok.inj hconclude
      exact .complete rfl

theorem outcome_consume (hcheck : t.settled.check t.current = .passed next) :
    Outcome t (t.consume t.settled next) := by
  have hwritten : t.fetched.toDraft = t.settled.write t.current := toDraft_fetch _
  have hledger : t.fetched.ledger = t.settled.ledger := by
    rw [hwritten, Draft.ledger_write]
  unfold consume
  split
  · rename_i fault u hfetch
    obtain rfl : u = t.fetched := by rw [fetched, hfetch]
    exact .failed hledger
  · rename_i u hfetch
    obtain rfl : u = t.fetched := by rw [fetched, hfetch]
    rw [hwritten]
    cases hfinish : (t.settled.write t.current).finish t.current next with
    | error fault => exact .failed hledger
    | ok d => exact .readOver (Draft.react_of_check_passed hcheck) hfetch hfinish

theorem outcome_step (t : Translation) : Outcome t t.step := by
  unfold step
  dsimp only
  split
  · exact t.outcome_conclude
  · exact .failed rfl
  · rename_i next hcheck
    exact outcome_consume hcheck

/-! ### The tokens in hand -/

theorem handled_of_running (h : t.step = .running u) : t.handled = t.current :: u.handled := by
  rw [handled]
  split <;> rename_i hstep <;> rw [h] at hstep <;> cases hstep
  rfl

theorem handled_of_complete (h : t.step = .complete u) : t.handled = [t.current] := by
  rw [handled]
  split
  · rename_i v hstep
    rw [h] at hstep
    cases hstep
  all_goals rfl

theorem handled_of_failed {fault : Diagnostic} (h : t.step = .failed fault u) :
    t.handled = [t.current] := by
  rw [handled]
  split
  · rename_i v hstep
    rw [h] at hstep
    cases hstep
  all_goals rfl

/-- The token that is in hand when a number of tokens have been read over. -/
def inHand (t : Translation) : ℕ → Except Diagnostic Token
  | 0 => .ok t.current
  | 1 => .ok t.upcoming
  | n + 2 => t.source.answer n

theorem inHand_of_fetch (h : t.fetch = (none, u)) (n : ℕ) : u.inHand n = t.inHand (n + 1) := by
  unfold fetch at h
  split at h
  · rename_i token behind hnext
    obtain ⟨-, rfl⟩ := Prod.mk.inj h
    match n with
    | 0 => rfl
    | 1 => exact (congrArg Prod.fst hnext).symm
    | n + 2 =>
      have hbehind : behind = t.source.next.2 := (congrArg Prod.snd hnext).symm
      rw [inHand, inHand, hbehind, Source.answer, Source.after_next, Source.answer]
  · cases h

/-- The tokens in hand are the two that the translation begins with and then the answers of its
source, and none of these is a fault. -/
theorem inHand_of_handled {i : ℕ} {token : Token} (h : t.handled[i]? = some token) :
    t.inHand i = .ok token := by
  have hlast : ∀ {t : Translation} {i : ℕ}, [t.current][i]? = some token →
      t.inHand i = .ok token := by
    intro t i h
    obtain ⟨hi, rfl⟩ := List.getElem?_eq_some_iff.mp h
    obtain rfl : i = 0 := Nat.lt_one_iff.mp hi
    rfl
  induction t using run.induct generalizing i with
  | case1 t u hrunning ih =>
    rw [handled_of_running hrunning] at h
    cases i with
    | zero =>
      obtain rfl := Option.some.inj h
      rfl
    | succ i =>
      have houtcome := t.outcome_step
      rw [hrunning] at houtcome
      cases houtcome with
      | readOver hreact hfetch hfinish => exact (inHand_of_fetch hfetch i).symm.trans (ih h)
  | case2 t u hcomplete =>
    rw [handled_of_complete hcomplete] at h
    exact hlast h
  | case3 t fault u hfailed =>
    rw [handled_of_failed hfailed] at h
    exact hlast h

/-! ### What a run declares -/

variable {before : List Token} {o : Option String} {l : Ledger}

/-- The last step of a run declares what is declared in the last of its moments. -/
theorem exists_declaredInTurn_last (h : t.StandsBehind before)
    (ho : ∀ x, EndsInInput before x ↔ o = some x) (hl : t.ledger = l.enterAll o.toList)
    (hledger : u.ledger = t.settled.ledger) :
    ∃ xs, DeclaredInTurn (momentsBehind before [t.current]) xs ∧ u.ledger = l.enterAll xs := by
  refine ⟨_, .cons (o.or (t.due? t.current.kind)) (fun x => h.declares_iff ho) .nil, ?_⟩
  rw [hledger, List.append_nil]
  exact h.ledger_settle ho hl t.current.kind

/-- What a run declares is declared in the moments that it goes through. -/
theorem exists_declaredInTurn_run (h : t.StandsBehind before)
    (ho : ∀ x, EndsInInput before x ↔ o = some x) (hl : t.ledger = l.enterAll o.toList) :
    ∃ xs, DeclaredInTurn (momentsBehind before t.handled) xs ∧ t.run.2.ledger = l.enterAll xs := by
  have houtcome := t.outcome_step
  induction t using run.induct generalizing before o l with
  | case1 t u hrunning ih =>
    rw [hrunning] at houtcome
    cases houtcome with
    | @readOver next d hreact hfetch hfinish =>
      have hledger : d.ledger = _ := Draft.ledger_finish hfinish
      rw [Draft.ledger_write] at hledger
      obtain ⟨xs, hxs, hrun⟩ := ih (h.finish hreact hfinish)
        (fun x => h.asked?_eq_some_iff hreact) hledger (outcome_step _)
      rw [handled_of_running hrunning, run_of_running hrunning, hrun]
      refine ⟨_, .cons (o.or (t.due? t.current.kind)) (fun x => h.declares_iff ho) hxs, ?_⟩
      rw [Ledger.enterAll_append, ← h.ledger_settle ho hl t.current.kind]
      rfl
  | case2 t u hcomplete =>
    rw [hcomplete] at houtcome
    cases houtcome with
    | complete hledger =>
      rw [handled_of_complete hcomplete, run_of_complete hcomplete]
      exact exists_declaredInTurn_last h ho hl hledger
  | case3 t fault u hfailed =>
    rw [hfailed] at houtcome
    cases houtcome with
    | failed hledger =>
      rw [handled_of_failed hfailed, run_of_failed hfailed]
      exact exists_declaredInTurn_last h ho hl hledger

end Translation

end PocketBasic

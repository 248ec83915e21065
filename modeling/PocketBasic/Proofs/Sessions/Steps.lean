import PocketBasic.Proofs.Files.FileSystem
import PocketBasic.Proofs.Sessions.Growth
import PocketBasic.Session

/-!
# What a request changes

A session has three registries of things that other things work on: sources, outputs and
translators.  One request leaves a registry as it is, adds a thing to it, or moves one of the
things on (`Registry.Change`).  `Session.changes_step` says for every request which of the three it
does to each of the registries, and all that is said of sessions follows from it: what was there
is still there and has only grown (`Session.Within`), what the request does not work on has not
changed at all (`Session.Keeps`), and every translator has the tokens of its source in hand
(`Session.InOrder`).

Main statement: this holds for every request in every session (`Session.step_grows`).
-/

namespace PocketBasic

/-! ## Registries -/

namespace Registry

variable {α : Type} {r r' r'' : Registry α} {i j : ℕ} {a a' b : α} {name : String}

theorem get?_of_find? (h : r.find? name = some (i, a)) : r.get? i = some a := by
  obtain ⟨j, -, h⟩ := Option.bind_eq_some_iff.mp h
  obtain ⟨b, hget, h⟩ := Option.bind_eq_some_iff.mp h
  obtain ⟨rfl, rfl⟩ := Prod.mk.inj (Option.some.inj h)
  exact hget

theorem lt_of_get? (h : r.get? i = some a) : i < r.items.length :=
  (List.getElem?_eq_some_iff.mp h).1

theorem get?_add (h : r.get? i = some a) (name : String) (b : α) :
    (r.add name b).get? i = some a := by
  rw [get?_add_of_lt r (lt_of_get? h), h]

theorem get?_set_self (h : r.get? i = some a) (b : α) : (r.set i b).get? i = some b :=
  List.getElem?_set_self (lt_of_get? h)

/-- What is in a registry with an addition was there before or is what was added. -/
theorem get?_add_cases (h : (r.add name b).get? i = some a) : r.get? i = some a ∨ a = b := by
  by_cases hi : i < r.items.length
  · exact .inl (by rwa [get?_add_of_lt r hi] at h)
  · rw [get?, add, List.getElem?_append_right (Nat.le_of_not_lt hi)] at h
    exact .inr (List.mem_singleton.mp (List.mem_of_getElem? h))

theorem get?_set_cases (h : (r.set i b).get? j = some a) :
    i ≠ j ∧ r.get? j = some a ∨ i = j ∧ a = b := by
  by_cases hij : i = j
  · subst hij
    have hlt : i < r.items.length := by
      have := lt_of_get? h
      rwa [set, List.length_set] at this
    rw [get?, set, List.getElem?_set_self hlt] at h
    exact .inr ⟨rfl, (Option.some.inj h).symm⟩
  · rw [get?_set_of_ne r hij] at h
    exact .inl ⟨hij, h⟩

/-- What one request does to a registry: it leaves it as it is, adds a thing of a certain sort, or
moves on one that is there. -/
inductive Change (sort : α → Prop) (moves : ℕ → α → α → Prop) (r : Registry α) :
    Registry α → Prop where
  | rest : Change sort moves r r
  | add (name : String) {a : α} (h : sort a) : Change sort moves r (r.add name a)
  | set {i : ℕ} {a a' : α} (h : r.get? i = some a) (hmoves : moves i a a') :
    Change sort moves r (r.set i a')

/-- All things of a registry are in a later one, under their numbers, and are related to what they
were. -/
def Within (rel : α → α → Prop) (r r' : Registry α) : Prop :=
  ∀ i a, r.get? i = some a → ∃ a', r'.get? i = some a' ∧ rel a a'

/-- The things of a registry are in a later one as they were, but for those with certain
numbers. -/
def Keeps (used : List ℕ) (r r' : Registry α) : Prop :=
  ∀ i, i ∉ used → ∀ a, r.get? i = some a → r'.get? i = some a

theorem Within.refl {rel : α → α → Prop} (hrefl : ∀ a, rel a a) (r : Registry α) :
    r.Within rel r :=
  fun _ a h => ⟨a, h, hrefl a⟩

theorem Within.trans {rel : α → α → Prop} (htrans : ∀ {a b c}, rel a b → rel b c → rel a c)
    (h : r.Within rel r') (h' : r'.Within rel r'') : r.Within rel r'' := by
  intro i a ha
  obtain ⟨b, hb, hab⟩ := h i a ha
  obtain ⟨c, hc, hbc⟩ := h' i b hb
  exact ⟨c, hc, htrans hab hbc⟩

variable {sort : α → Prop} {moves : ℕ → α → α → Prop}

theorem Change.within {rel : α → α → Prop} (h : r.Change sort moves r') (hrefl : ∀ a, rel a a)
    (hmoves : ∀ {i a a'}, moves i a a' → rel a a') : r.Within rel r' := by
  intro j b hb
  cases h with
  | rest => exact ⟨b, hb, hrefl b⟩
  | add name h => exact ⟨b, get?_add hb _ _, hrefl b⟩
  | @set i a a' ha hmove =>
    by_cases hij : i = j
    · subst hij
      obtain rfl := Option.some.inj (ha.symm.trans hb)
      exact ⟨a', get?_set_self ha a', hmoves hmove⟩
    · exact ⟨b, by rw [get?_set_of_ne r hij, hb], hrefl b⟩

theorem Change.keeps {used : List ℕ} (h : r.Change sort moves r')
    (hmoves : ∀ {i a a'}, moves i a a' → i ∈ used) : r.Keeps used r' := by
  intro j hj b hb
  cases h with
  | rest => exact hb
  | add name h => exact get?_add hb _ _
  | @set i a a' ha hmove =>
    have hij : i ≠ j := by
      rintro rfl
      exact hj (hmoves hmove)
    rw [get?_set_of_ne r hij, hb]

/-- A thing that is in the later registry was there before, was added or was moved on. -/
theorem Change.cases (h : r.Change sort moves r') (hb : r'.get? j = some b) :
    r.get? j = some b ∨ sort b ∨ ∃ a, r.get? j = some a ∧ moves j a b := by
  cases h with
  | rest => exact .inl hb
  | add name h =>
    rcases get?_add_cases hb with hb | rfl
    · exact .inl hb
    · exact .inr (.inl h)
  | @set i a a' ha hmove =>
    rcases get?_set_cases hb with ⟨-, hb⟩ | ⟨rfl, rfl⟩
    · exact .inl hb
    · exact .inr (.inr ⟨a, ha, hmove⟩)

end Registry

/-! ## Sessions -/

/-- An output that has been written to: its path is the same, and its listing has grown. -/
structure Output.Within (o o' : Output) : Prop where
  path : o'.path = o.path
  listing : o.listing.Within o'.listing

/-- A translator that has been at work: it reads and writes where it did, and knows more names. -/
structure BoundTranslator.Within (b b' : BoundTranslator) : Prop where
  source : b'.source = b.source
  output : b'.output = b.output
  names : b.translator.names.Within b'.translator.names

/-- The numbers of the things that a request works on. -/
structure Uses where
  sources : List ℕ := []
  outputs : List ℕ := []
  translators : List ℕ := []

namespace Session

/-- What there was in a session is still there, and has only grown. -/
structure Within (s s' : Session) : Prop where
  sources : s.sources.Within Source.Within s'.sources
  outputs : s.outputs.Within Output.Within s'.outputs
  translators : s.translators.Within BoundTranslator.Within s'.translators

/-- What is not worked on has not changed. -/
structure Keeps (u : Uses) (s s' : Session) : Prop where
  sources : s.sources.Keeps u.sources s'.sources
  outputs : s.outputs.Keeps u.outputs s'.outputs
  translators : s.translators.Keeps u.translators s'.translators

/-- A translator works on a source and an output that are there, has two tokens in hand that the
source has handed out, and knows each name once. -/
def Binds (s : Session) (b : BoundTranslator) : Prop :=
  ∃ source output, s.sources.get? b.source = some source ∧ s.outputs.get? b.output = some output ∧
    b.translator.InHand source ∧ b.translator.names.Distinct

/-- All translators of a session are bound in this way. -/
def InOrder (s : Session) : Prop := ∀ k b, s.translators.get? k = some b → s.Binds b

/-- The things that a request works on, in the state that it is asked in.  A translator that is
set to work works on its source and its output as well; to create one works on the source, whose
first tokens it takes. -/
def uses (s : Session) : Request → Uses
  | .nextToken name | .remainingTokens name | .position name | .openTranslator _ name _ =>
    { sources := ((s.sources.find? name).map Prod.fst).toList }
  | .emit name _ | .emitLine name _ | .headerLine name _ | .render name | .store name =>
    { outputs := ((s.outputs.find? name).map Prod.fst).toList }
  | .translate name =>
    match s.translators.find? name with
    | some (k, bound) => ⟨[bound.source], [bound.output], [k]⟩
    | none => {}
  | _ => {}

/-- What one request does to the registries of a session. -/
structure Changes (s : Session) (u : Uses) (s' : Session) : Prop where
  sources : s.sources.Change (fun _ => True)
    (fun i a a' => i ∈ u.sources ∧ ∃ n, a' = Source.after a n) s'.sources
  outputs : s.outputs.Change (fun _ => True)
    (fun i o o' => i ∈ u.outputs ∧ Output.Within o o') s'.outputs
  translators : s.translators.Change s'.Binds
    (fun k b b' => k ∈ u.translators ∧ b.Within b' ∧ (s.Binds b → s'.Binds b')) s'.translators

/-! ## Single requests -/

namespace Changes

variable {s s' : Session} {u : Uses} {i j : ℕ} {source : Source} {output output' : Output}

/-- A request that leaves the registries as they are. -/
theorem rest (s : Session) (files : FileTree) (compilers : Registry CompileOptions) :
    s.Changes u { s with files := files, compilers := compilers } :=
  ⟨.rest, .rest, .rest⟩

/-- A request that takes answers from a source. -/
theorem advance (hi : i ∈ u.sources) (hsource : s.sources.get? i = some source) (n : ℕ) :
    s.Changes u { s with sources := s.sources.set i (source.after n) } :=
  ⟨.set hsource ⟨hi, n, rfl⟩, .rest, .rest⟩

/-- A request that writes to an output, and perhaps to a file. -/
theorem write (hj : j ∈ u.outputs) (houtput : s.outputs.get? j = some output)
    (h : output.Within output') (files : FileTree) :
    s.Changes u { s with files := files, outputs := s.outputs.set j output' } :=
  ⟨.rest, .set houtput ⟨hj, h⟩, .rest⟩

end Changes

variable (s : Session)

theorem changes_nextToken {u : Uses} {i : ℕ} {source : Source} (hi : i ∈ u.sources)
    (hsource : s.sources.get? i = some source) : s.Changes u (s.nextToken i source).2 := by
  have hchange := Changes.advance hi hsource 1
  rw [Source.after, Source.after] at hchange
  unfold nextToken
  split
  all_goals
    rename_i hnext
    rw [hnext] at hchange
    exact hchange

theorem changes_remainingTokens {u : Uses} {i : ℕ} {source : Source} (hi : i ∈ u.sources)
    (hsource : s.sources.get? i = some source) : s.Changes u (s.remainingTokens i source).2 := by
  obtain ⟨n, hn⟩ := source.exists_tokenize_source
  rw [remainingTokens, hn]
  exact .advance hi hsource n

theorem changes_modifyListing {u : Uses} {j : ℕ} {output : Output} (hj : j ∈ u.outputs)
    (houtput : s.outputs.get? j = some output) {change : Listing → Listing}
    (h : ∀ l : Listing, l.Within (change l)) :
    s.Changes u (s.modifyListing j output change).2 :=
  have hwithin : output.Within { output with listing := change output.listing } :=
    ⟨rfl, h output.listing⟩
  .write hj houtput hwithin s.files

/-- Storing an output leaves its path and its listing as they are. -/
theorem within_store (o : Output) (t : FileTree) :
    o.Within ((o.store FileTree.disk).run t).1.2 := by
  have hsame : ∀ stored, o.Within { o with stored := stored } := fun _ => ⟨rfl, .refl _⟩
  rw [← FileTree.disk_fileSystem]
  cases hcontent : o.content? with
  | error d =>
    rw [FileSystem.run_store_of_error _ hcontent]
    exact hsame o.stored
  | ok content =>
    obtain ⟨path, bytes⟩ := content
    cases hwrite : FileTree.fileSystem.write path bytes t with
    | error refusal =>
      rw [FileSystem.run_store_of_refused _ hcontent hwrite]
      exact hsame o.stored
    | ok t' =>
      rw [FileSystem.run_store_of_ok _ hcontent hwrite]
      exact hsame true

theorem changes_store {u : Uses} {j : ℕ} {output : Output} (hj : j ∈ u.outputs)
    (houtput : s.outputs.get? j = some output) : s.Changes u (s.store j output).2 := by
  have hwithin := within_store output s.files
  unfold store
  split
  all_goals
    rename_i hrun
    rw [hrun] at hwithin
    exact .write hj houtput hwithin _

theorem changes_openTranslator {u : Uses} {name : String} {i j : ℕ} {source : Source}
    {output : Output} (hi : i ∈ u.sources) (hsource : s.sources.get? i = some source)
    (houtput : s.outputs.get? j = some output) :
    s.Changes u (s.openTranslator name i source j output).2 := by
  unfold openTranslator
  rcases Translator.start_cases source with
    ⟨d, n, hstart⟩ | ⟨current, upcoming, hstart, hcurrent, hupcoming⟩
  · rw [hstart]
    exact .advance hi hsource n
  · rw [hstart]
    have hin : Translator.InHand ⟨current, upcoming, .empty⟩ (source.after 2) :=
      ⟨(Source.handedOut_next hcurrent).after 1, Source.handedOut_next hupcoming⟩
    refine ⟨.set hsource ⟨hi, 2, rfl⟩, .rest, .add name ?_⟩
    exact ⟨_, output, Registry.get?_set_self hsource _, houtput, hin, .empty⟩

theorem changes_translate {u : Uses} {k : ℕ} {bound : BoundTranslator} {source : Source}
    {output : Output} (hk : k ∈ u.translators) (hi : bound.source ∈ u.sources)
    (hj : bound.output ∈ u.outputs) (hbound : s.translators.get? k = some bound)
    (hsource : s.sources.get? bound.source = some source)
    (houtput : s.outputs.get? bound.output = some output) :
    s.Changes u (s.translate k bound source output).2 := by
  obtain ⟨hnames, hlisting, hdistinct, ⟨n, hn⟩, hin⟩ :=
    Translation.within_translate bound.translator source output.listing
  unfold translate
  dsimp only
  refine ⟨?_, .set houtput ⟨hj, rfl, hlisting⟩, .set hbound ⟨hk, ⟨rfl, rfl, hnames⟩, ?_⟩⟩
  · dsimp only
    rw [hn]
    exact .set hsource ⟨hi, n, rfl⟩
  · rintro ⟨source', output', hsource', -, hin', hdistinct'⟩
    obtain rfl := Option.some.inj (hsource.symm.trans hsource')
    exact ⟨_, _, Registry.get?_set_self hsource _, Registry.get?_set_self houtput _, hin hin',
      hdistinct hdistinct'⟩

theorem changes_compileFile {u : Uses} (options : CompileOptions) (path : String)
    (answer : Except Diagnostic Compiled → Answer) :
    s.Changes u (match s.compileFile options path with
      | (result, s') => (answer result, s')).2 := by
  unfold compileFile
  generalize (PocketBasic.compileFile FileTree.disk options (.ofString path)).run s.files = result
  exact .rest s result.2 s.compilers

theorem changes_command {u : Uses} (arguments : List String) :
    s.Changes u (s.command arguments).2 := by
  unfold command
  generalize (CommandLine.run FileTree.disk arguments).run s.files = result
  exact .rest s result.2 s.compilers

/-! ## All requests -/

variable {s}

/-- What holds of a session and of what is done with each thing of a name holds if it is done with
the thing of a given name, which may stand for nothing. -/
theorem changes_withNamed {α : Type} {u : Uses} {r : Registry α} {name : String}
    {act : ℕ → α → Answer × Session}
    (h : ∀ i a, r.find? name = some (i, a) → s.Changes u (act i a).2) :
    s.Changes u (s.withNamed r name act).2 := by
  unfold withNamed
  split
  · rename_i i a hfind
    exact h i a hfind
  · exact .rest s s.files s.compilers

theorem mem_uses_of_find? {α : Type} {r : Registry α} {name : String} {i : ℕ} {a : α}
    (h : r.find? name = some (i, a)) : i ∈ ((r.find? name).map Prod.fst).toList := by
  rw [h]
  exact List.mem_singleton_self i

variable (s)

/-- Every request changes the registries in one of these ways, and works on nothing else than the
things that it uses. -/
theorem changes_step (request : Request) : s.Changes (s.uses request) (s.step request).2 := by
  cases request with
  | openSource name text filename => exact ⟨.add name trivial, .rest, .rest⟩
  | nextToken name =>
    exact changes_withNamed fun i source h =>
      s.changes_nextToken (mem_uses_of_find? h) (Registry.get?_of_find? h)
  | remainingTokens name =>
    exact changes_withNamed fun i source h =>
      s.changes_remainingTokens (mem_uses_of_find? h) (Registry.get?_of_find? h)
  | position name => exact changes_withNamed fun _ _ _ => .rest s s.files s.compilers
  | openOutput name path => exact ⟨.rest, .add name trivial, .rest⟩
  | emit name text =>
    exact changes_withNamed fun j output h =>
      s.changes_modifyListing (mem_uses_of_find? h) (Registry.get?_of_find? h)
        fun l => l.within_emit text
  | emitLine name text =>
    exact changes_withNamed fun j output h =>
      s.changes_modifyListing (mem_uses_of_find? h) (Registry.get?_of_find? h)
        fun l => l.within_emit (text ++ "\n")
  | headerLine name text =>
    exact changes_withNamed fun j output h =>
      s.changes_modifyListing (mem_uses_of_find? h) (Registry.get?_of_find? h)
        fun l => l.within_headerLine text
  | render name => exact changes_withNamed fun _ _ _ => .rest s s.files s.compilers
  | store name =>
    exact changes_withNamed fun j output h =>
      s.changes_store (mem_uses_of_find? h) (Registry.get?_of_find? h)
  | openTranslator name source output =>
    exact changes_withNamed fun i source h => changes_withNamed fun j output h' =>
      s.changes_openTranslator (mem_uses_of_find? h) (Registry.get?_of_find? h)
        (Registry.get?_of_find? h')
  | translate name =>
    refine changes_withNamed fun k bound h => ?_
    rw [uses, h]
    dsimp only
    split
    · rename_i source output hsource houtput
      exact s.changes_translate List.mem_cons_self List.mem_cons_self List.mem_cons_self
        (Registry.get?_of_find? h) hsource houtput
    · exact .rest s s.files s.compilers
  | openCompiler name options => exact .rest s s.files _
  | compileText name text filename =>
    exact changes_withNamed fun _ _ _ => .rest s s.files s.compilers
  | compileFile name path =>
    exact changes_withNamed fun _ options _ => s.changes_compileFile options path _
  | compileFileTo path output =>
    rw [step]
    exact s.changes_compileFile { output := output } path (answerOf fun c => .code c.code)
  | readSource path => exact .rest s s.files s.compilers
  | putFile path bytes =>
    simp only [step, putFile]
    split
    · exact .rest s _ s.compilers
    · exact .rest s s.files s.compilers
  | makeDirectory path =>
    simp only [step, makeDirectory]
    split
    all_goals exact .rest s _ s.compilers
  | getFile path =>
    simp only [step]
    split
    all_goals exact .rest s s.files s.compilers
  | listFiles => exact .rest s s.files s.compilers
  | command arguments => exact s.changes_command arguments

/-! ## Growth -/

namespace Within

variable {s s' s'' : Session}

theorem refl (s : Session) : s.Within s :=
  ⟨.refl Source.Within.refl _, .refl (fun _ => ⟨rfl, .refl _⟩) _,
    .refl (fun _ => ⟨rfl, rfl, .refl _⟩) _⟩

theorem trans (h : s.Within s') (h' : s'.Within s'') : s.Within s'' := by
  refine ⟨h.sources.trans Source.Within.trans h'.sources, h.outputs.trans ?_ h'.outputs,
    h.translators.trans ?_ h'.translators⟩
  · intro o o' o'' ho ho'
    exact ⟨ho'.path.trans ho.path, ho.listing.trans ho'.listing⟩
  · intro b b' b'' hb hb'
    exact ⟨hb'.source.trans hb.source, hb'.output.trans hb.output, hb.names.trans hb'.names⟩

end Within

namespace Changes

variable {s s' : Session} {u : Uses} (h : s.Changes u s')

include h

theorem within : s.Within s' := by
  refine ⟨h.sources.within Source.Within.refl ?_,
    h.outputs.within (fun _ => ⟨rfl, .refl _⟩) And.right,
    h.translators.within (fun _ => ⟨rfl, rfl, .refl _⟩) fun hmoves => hmoves.2.1⟩
  rintro _ source _ ⟨-, n, rfl⟩
  exact source.within_after n

theorem keeps : s.Keeps u s' :=
  ⟨h.sources.keeps And.left, h.outputs.keeps And.left, h.translators.keeps And.left⟩

/-- A translator that was bound stays bound if it is not set to work itself, whatever becomes of
its source. -/
theorem binds {b : BoundTranslator} (hb : s.Binds b) : s'.Binds b := by
  obtain ⟨source, output, hsource, houtput, hin, hdistinct⟩ := hb
  obtain ⟨output', houtput', -⟩ := h.within.outputs _ _ houtput
  have hmoved : s.sources.Within (fun a a' => ∃ n, a' = Source.after a n) s'.sources :=
    h.sources.within (fun a => ⟨0, rfl⟩) And.right
  obtain ⟨_, hsource', n, rfl⟩ := hmoved _ _ hsource
  exact ⟨_, output', hsource', houtput', ⟨hin.current.after n, hin.upcoming.after n⟩, hdistinct⟩

theorem inOrder (hs : s.InOrder) : s'.InOrder := by
  intro k b hb
  rcases h.translators.cases hb with hb | hb | ⟨a, ha, -, -, hbinds⟩
  · exact h.binds (hs k b hb)
  · exact hb
  · exact hbinds (hs k a ha)

end Changes

/-- The session behind a number of requests. -/
def after (s : Session) : List Request → Session
  | [] => s
  | request :: later => (s.step request).2.after later

/-- The later requests are answered by the session behind the earlier ones. -/
theorem run_append (s : Session) (past later : List Request) :
    s.run (past ++ later) = s.run past ++ (s.after past).run later := by
  induction past generalizing s with
  | nil => rfl
  | cons request past ih =>
    show (s.step request).1 :: (s.step request).2.run (past ++ later) =
      (s.step request).1 :: ((s.step request).2.run past ++ _)
    rw [ih]
    rfl

theorem inOrder_start : start.InOrder := by
  intro k b hb
  cases hb

/-- A session that is in order stays in order, and all of it is still there after any number of
requests. -/
theorem InOrder.after {s : Session} (h : s.InOrder) (requests : List Request) :
    s.Within (s.after requests) ∧ (s.after requests).InOrder := by
  induction requests generalizing s with
  | nil => exact ⟨.refl s, h⟩
  | cons request later ih =>
    have hstep := s.changes_step request
    obtain ⟨hwithin, horder⟩ := ih (hstep.inOrder h)
    exact ⟨hstep.within.trans hwithin, horder⟩

/-- Sessions only grow.  Behind any requests, one more request, whether it succeeds or fails, leaves
all that was there and adds to it; every translator has two tokens of its source in hand and knows
each name once; and the things that the request does not work on are as they were. -/
theorem step_grows (past : List Request) (request : Request) :
    (start.after past).Within ((start.after past).step request).2 ∧
      ((start.after past).step request).2.InOrder ∧
      (start.after past).Keeps ((start.after past).uses request)
        ((start.after past).step request).2 := by
  have horder := (inOrder_start.after past).2
  have hstep := (start.after past).changes_step request
  exact ⟨hstep.within, hstep.inOrder horder, hstep.keeps⟩

end Session
end PocketBasic

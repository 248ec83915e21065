import PocketBasic.Proofs.Files.Compiling

/-!
# Outputs are written once

An output is filled, rendered and stored by calls in any order, and between the calls the file
system may become another one.  What the calls have left is told by the calls alone: the listing
is what they have added (`rendered`), and the output counts as stored exactly if one of them has
been answered with the text that it stored (`between_after`).

What storing comes to depends on no more than that and on the file system.  `Storing` has one
constructor for each of the four ways to fail and one for the output that is written, and each
constructor says that the checks before have passed.  It is the whole of `Output.store`
(`eq_of_storing`, `storing_run`).

Main statement: `leftBy_after`, about the output that any calls have left, and about what storing
it then comes to.
-/

namespace PocketBasic
namespace Text

/-- The first wide run of a text stands behind single bytes, and before the end or another single
byte. -/
theorem exists_of_firstWideRun (text : List Char) :
    ∃ before behind, text = before ++ firstWideRun text ++ behind ∧
      (∀ c ∈ before, isByte c = true) ∧ (∀ c ∈ firstWideRun text, isByte c = false) ∧
      ∀ c ∈ behind.head?, isByte c = true := by
  obtain ⟨before, rest, rfl, hbefore, hstop⟩ := Lexeme.exists_run isByte text
  obtain ⟨run, behind, rfl, hrun, hend⟩ := Lexeme.exists_run (fun c => !isByte c) rest
  have hwide : firstWideRun (before ++ (run ++ behind)) = run := by
    rw [firstWideRun, Lexeme.dropWhile_run hbefore hstop, Lexeme.takeWhile_run hrun hend]
  rw [hwide]
  refine ⟨before, behind, (List.append_assoc _ _ _).symm, hbefore, fun c hc => ?_, fun c hc => ?_⟩
  · simpa using hrun c hc
  · simpa using hend c hc

/-- A wide run that stands behind single bytes, and before the end or another single byte, is the
first one. -/
theorem firstWideRun_eq {before run behind : List Char} (hbefore : ∀ c ∈ before, isByte c = true)
    (hne : run ≠ []) (hrun : ∀ c ∈ run, isByte c = false)
    (hbehind : ∀ c ∈ behind.head?, isByte c = true) :
    firstWideRun (before ++ run ++ behind) = run := by
  have hstop : Lexeme.NoneAhead isByte (run ++ behind) := by
    obtain ⟨c, run, rfl⟩ := List.exists_cons_of_ne_nil hne
    exact Lexeme.noneAhead_cons.mpr (hrun c List.mem_cons_self)
  have hwide : ∀ c ∈ run, (!isByte c) = true := fun c hc => by simp [hrun c hc]
  have hend : Lexeme.NoneAhead (fun c => !isByte c) behind := fun c hc => by simp [hbehind c hc]
  rw [firstWideRun, List.append_assoc, Lexeme.dropWhile_run hbefore hstop,
    Lexeme.takeWhile_run hwide hend]

theorem encodeBytes_eq_error {text run : List Char} (h : firstWideRun text = run) (hne : run ≠ []) :
    encodeBytes text = .error run := by
  rw [encodeBytes, h]
  cases run with
  | nil => exact absurd rfl hne
  | cons c run => rfl

end Text

namespace Output

variable {σ ι : Type}

/-! ## Calls -/

/-- What is done with an output, or beside it. -/
inductive Call (σ : Type) where
  | emit (text : String)
  | emitLine (text : String)
  | headerLine (text : String)
  | render
  | store
  /-- The file system becomes another one. -/
  | elsewhere (s : σ)

/-- What a call is answered with. -/
inductive Answer where
  | done
  | text (text : String)
  | failed (d : Diagnostic)

/-- The answer to a call, and the output and the file system behind it. -/
def answer (F : FileSystem σ ι) (o : Output) (s : σ) : Call σ → Answer × Output × σ
  | .emit text => (.done, { o with listing := o.listing.emit text }, s)
  | .emitLine text => (.done, { o with listing := o.listing.emitLine text }, s)
  | .headerLine text => (.done, { o with listing := o.listing.headerLine text }, s)
  | .render => (.text o.listing.render, o, s)
  | .store =>
    match (o.store F.disk).run s with
    | ((.ok text, o'), s') => (.text text, o', s')
    | ((.error d, o'), s') => (.failed d, o', s')
  | .elsewhere s' => (.done, o, s')

/-- The output and the file system behind some calls. -/
def after (F : FileSystem σ ι) : List (Call σ) → Output × σ → Output × σ
  | [], x => x
  | call :: calls, (o, s) => after F calls (answer F o s call).2

/-- Some calls with their answers. -/
def history (F : FileSystem σ ι) : List (Call σ) → Output × σ → List (Call σ × Answer)
  | [], _ => []
  | call :: calls, (o, s) => (call, (answer F o s call).1) :: history F calls (answer F o s call).2

/-- Whether a call has stored the output. -/
def hasStored : Call σ × Answer → Bool
  | (.store, .text _) => true
  | _ => false

/-- What a call adds to the header. -/
def headerText : Call σ → String
  | .headerLine text => text ++ "\n"
  | _ => ""

/-- What a call adds to the body. -/
def bodyText : Call σ → String
  | .emit text => text
  | .emitLine text => text ++ "\n"
  | _ => ""

/-- The text that calls have put together: the lines of the header in their order, and then the
texts and lines of the body in theirs. -/
def rendered (calls : List (Call σ)) : String :=
  String.join (calls.map headerText) ++ String.join (calls.map bodyText)

/-! ## What storing comes to -/

/-- What it comes to if a text is stored at a path, or at none, in a state of a file system, and
the state behind it.  It matters whether the text was stored before. -/
inductive Storing (F : FileSystem σ ι) (path : Option Path) (stored : Bool) (text : String) (s : σ) :
    Except Diagnostic String → σ → Prop where
  | noPath (hpath : path = none) :
    Storing F path stored text s
      (.error (.ofAccess (.unwritable "<none>" "no output path configured"))) s
  | again {p : Path} (hpath : path = some p) (hstored : stored = true) :
    Storing F path stored text s
      (.error (.ofAccess (.unwritable (toString p) "output already written"))) s
  /-- The text has characters that are not single bytes.  The reason quotes the first of them with
  those that follow it directly. -/
  | wide {p : Path} (hpath : path = some p) (hstored : stored = false) {before run behind : List Char}
    (htext : text.toList = before ++ run ++ behind)
    (hbefore : ∀ c ∈ before, Text.isByte c = true) (hne : run ≠ [])
    (hrun : ∀ c ∈ run, Text.isByte c = false) (hbehind : ∀ c ∈ behind.head?, Text.isByte c = true) :
    Storing F path stored text s
      (.error (.ofAccess (.unwritable (toString p)
        ("character " ++ String.ofList (Text.quoted run) ++ " is not a single byte")))) s
  | refused {p : Path} (hpath : path = some p) (hstored : stored = false) {bytes : List UInt8}
    (hbytes : bytes.map UInt8.toNat = text.toList.map Char.toNat) {refusal : Refusal}
    (hwrite : F.write p bytes s = .error refusal) :
    Storing F path stored text s
      (.error (.ofAccess (.unwritable (toString p) refusal.reason))) s
  | written {p : Path} (hpath : path = some p) (hstored : stored = false) {bytes : List UInt8}
    (hbytes : bytes.map UInt8.toNat = text.toList.map Char.toNat) {s' : σ}
    (hwrite : F.write p bytes s = .ok s') (hstores : F.Stores p bytes s s') :
    Storing F path stored text s (.ok text) s'

/-- Bytes that are the code points of a text are what the text is written as. -/
theorem encodeBytes_of_map_toNat {text : String} {bytes : List UInt8}
    (h : bytes.map UInt8.toNat = text.toList.map Char.toNat) :
    Text.encodeBytes text.toList = .ok bytes := by
  have hbyte : AllChars (Text.isByte · = true) text := by
    intro c hc
    have hmem : c.toNat ∈ bytes.map UInt8.toNat := h ▸ List.mem_map_of_mem hc
    obtain ⟨b, -, hb⟩ := List.mem_map.mp hmem
    exact decide_eq_true (hb ▸ b.toNat_lt)
  rw [Text.encodeBytes_eq_ok hbyte]
  refine congrArg _ ((List.map_injective_iff.mpr fun _ _ => UInt8.toNat_inj.mp) ?_)
  rw [Text.map_toNat_singleBytes hbyte, h]

/-- What is written of an output that was not stored. -/
theorem content?_eq_ok {p : Path} {listing : Listing} {bytes : List UInt8}
    (h : bytes.map UInt8.toNat = listing.render.toList.map Char.toNat) :
    content? ⟨some p, listing, false⟩ = .ok (p, bytes) := by
  rw [content?, encodeBytes_of_map_toNat h]
  rfl

variable {F : FileSystem σ ι} {o : Output} {s s' : σ} {result : Except Diagnostic String}

/-- What storing comes to, with the output behind it: a failure leaves the output as it was. -/
theorem eq_of_storing (h : Storing F o.path o.stored o.listing.render s result s') :
    (o.store F.disk).run s =
      ((result, { o with stored := o.stored || result.isOk }), s') := by
  obtain ⟨path, listing, stored⟩ := o
  cases h with
  | noPath hpath =>
    obtain rfl : path = none := hpath
    rw [F.run_store_of_error (d := .ofAccess (.unwritable "<none>" "no output path configured")) rfl]
    cases stored <;> rfl
  | @again p hpath hstored =>
    obtain rfl : path = some p := hpath
    obtain rfl : stored = true := hstored
    exact F.run_store_of_error rfl
  | @wide p hpath hstored before run behind htext hbefore hne hrun hbehind =>
    obtain rfl : path = some p := hpath
    obtain rfl : stored = false := hstored
    refine F.run_store_of_error ?_
    have hwide : Text.firstWideRun listing.render.toList = run := by
      rw [show listing.render.toList = before ++ run ++ behind from htext]
      exact Text.firstWideRun_eq hbefore hne hrun hbehind
    rw [content?, Text.encodeBytes_eq_error hwide hne]
    rfl
  | @refused p hpath hstored bytes hbytes refusal hwrite =>
    obtain rfl : path = some p := hpath
    obtain rfl : stored = false := hstored
    exact F.run_store_of_refused (content?_eq_ok hbytes) hwrite
  | @written p hpath hstored bytes hbytes s' hwrite hstores =>
    obtain rfl : path = some p := hpath
    obtain rfl : stored = false := hstored
    exact F.run_store_of_ok (content?_eq_ok hbytes) hwrite

/-- Storing comes to one of the cases. -/
theorem exists_storing (F : FileSystem σ ι) (path : Option Path) (stored : Bool) (text : String)
    (s : σ) : ∃ result s', Storing F path stored text s result s' := by
  cases hpath : path with
  | none => exact ⟨_, _, .noPath rfl⟩
  | some p =>
    cases hstored : stored with
    | true => exact ⟨_, _, .again rfl rfl⟩
    | false =>
      obtain ⟨before, behind, htext, hbefore, hrun, hbehind⟩ :=
        Text.exists_of_firstWideRun text.toList
      by_cases hne : Text.firstWideRun text.toList = []
      · have hbytes := Text.map_toNat_singleBytes (Text.firstWideRun_eq_nil_iff.mp hne)
        cases hwrite : F.write p (Text.singleBytes text) s with
        | error refusal => exact ⟨_, _, .refused rfl rfl hbytes hwrite⟩
        | ok s' => exact ⟨_, _, .written rfl rfl hbytes hwrite (F.entry?_of_write hwrite)⟩
      · exact ⟨_, _, .wide rfl rfl htext hbefore hne hrun hbehind⟩

theorem storing_run (F : FileSystem σ ι) (o : Output) (s : σ) :
    Storing F o.path o.stored o.listing.render s ((o.store F.disk).run s).1.1
      ((o.store F.disk).run s).2 := by
  obtain ⟨result, s', h⟩ := exists_storing F o.path o.stored o.listing.render s
  rw [eq_of_storing h]
  exact h

/-- A failure changes neither the output nor the file system. -/
theorem run_store_of_failure {d : Diagnostic} (h : ((o.store F.disk).run s).1.1 = .error d) :
    (o.store F.disk).run s = ((.error d, o), s) := by
  have hrun := storing_run F o s
  rw [h] at hrun
  have hsame : ((o.store F.disk).run s).2 = s := by
    generalize ((o.store F.disk).run s).2 = s' at hrun
    cases hrun
    all_goals rfl
  rw [hsame] at hrun
  rw [eq_of_storing hrun]
  simp [Except.isOk, Except.toBool]

/-- Only an output that was not stored is stored, and then it is. -/
theorem run_store_of_success {text : String} (h : ((o.store F.disk).run s).1.1 = .ok text) :
    o.stored = false ∧
      (o.store F.disk).run s = ((.ok text, { o with stored := true }), ((o.store F.disk).run s).2) := by
  have hrun := storing_run F o s
  rw [h] at hrun
  refine ⟨by cases hrun; assumption, ?_⟩
  conv_lhs => rw [eq_of_storing hrun]
  simp [Except.isOk, Except.toBool]

/-! ## What calls leave -/

/-- Between two outputs lie some calls with their answers. -/
structure Between (calls : List (Call σ)) (past : List (Call σ × Answer)) (o o' : Output) : Prop where
  path : o'.path = o.path
  header : o'.listing.header = o.listing.header ++ String.join (calls.map headerText)
  body : o'.listing.body = o.listing.body ++ String.join (calls.map bodyText)
  /-- Storing is counted by the flag, so that there is room for one. -/
  stored : o'.stored.toNat = o.stored.toNat + past.countP hasStored

theorem Between.refl (o : Output) : Between (σ := σ) [] [] o o := by
  constructor
  all_goals simp

theorem Between.trans {calls calls' : List (Call σ)} {past past' : List (Call σ × Answer)}
    {o o' o'' : Output} (h : Between calls past o o') (h' : Between calls' past' o' o'') :
    Between (calls ++ calls') (past ++ past') o o'' where
  path := h'.path.trans h.path
  header := by
    rw [h'.header, h.header, List.map_append, String.join_append, String.append_assoc]
  body := by
    rw [h'.body, h.body, List.map_append, String.join_append, String.append_assoc]
  stored := by
    rw [h'.stored, h.stored, List.countP_append, Nat.add_assoc]

/-- One call. -/
theorem between_answer (F : FileSystem σ ι) (o : Output) (s : σ) (call : Call σ) :
    Between [call] [(call, (answer F o s call).1)] o (answer F o s call).2.1 := by
  cases call with
  | emit | emitLine | headerLine | render | elsewhere =>
    constructor
    all_goals simp [answer, hasStored, headerText, bodyText, Listing.emit, Listing.emitLine,
      Listing.headerLine]
  | store =>
    cases hresult : ((o.store F.disk).run s).1.1 with
    | error d =>
      have hanswer : answer F o s .store = (.failed d, o, s) := by
        rw [answer, run_store_of_failure hresult]
      rw [hanswer]
      constructor
      all_goals simp [hasStored, headerText, bodyText]
    | ok text =>
      obtain ⟨hfresh, hrun⟩ := run_store_of_success hresult
      have hanswer : answer F o s .store =
          (.text text, { o with stored := true }, ((o.store F.disk).run s).2) := by
        rw [answer, hrun]
      rw [hanswer]
      constructor
      all_goals simp [hasStored, headerText, bodyText, hfresh]

/-- Any number of calls. -/
theorem between_after (F : FileSystem σ ι) (calls : List (Call σ)) (o : Output) (s : σ) :
    Between calls (history F calls (o, s)) o (after F calls (o, s)).1 := by
  induction calls generalizing o s with
  | nil => exact .refl o
  | cons call calls ih => exact (between_answer F o s call).trans (ih _ _)

/-- What calls on an output, which began empty, have left: an output and a file system. -/
structure LeftBy (F : FileSystem σ ι) (path : Option Path) (calls : List (Call σ))
    (past : List (Call σ × Answer)) (o : Output) (s : σ) : Prop where
  samePath : o.path = path
  /-- The text is what the calls have put together. -/
  render : o.listing.render = rendered calls
  /-- It was stored once at most. -/
  once : past.countP hasStored ≤ 1
  /-- What storing it now comes to is told by the calls. -/
  storing (result : Except Diagnostic String) (s' : σ) :
    Storing F path (past.any hasStored) (rendered calls) s result s' ↔
      ((o.store F.disk).run s).1.1 = result ∧ ((o.store F.disk).run s).2 = s'
  /-- A failure leaves the output and the file system as they are. -/
  failed (d : Diagnostic) (h : ((o.store F.disk).run s).1.1 = .error d) :
    answer F o s .store = (.failed d, o, s)

/-- Whatever is done with an output that begins empty, and whatever happens to the file system in
between, the text is what the calls have put together, it is stored once at most, and storing it
then fails for one of four reasons, which are looked for in their order, or writes the text to
its path; and a failure leaves everything as it was. -/
theorem leftBy_after (F : FileSystem σ ι) (path : Option Path) (s : σ) (calls : List (Call σ)) :
    LeftBy F path calls (history F calls (empty path, s)) (after F calls (empty path, s)).1
      (after F calls (empty path, s)).2 := by
  have hbetween := between_after F calls (empty path) s
  generalize history F calls (empty path, s) = past at hbetween ⊢
  generalize after F calls (empty path, s) = left at hbetween ⊢
  obtain ⟨o, s⟩ := left
  have hrender : o.listing.render = rendered calls := by
    rw [Listing.render, hbetween.header, hbetween.body, rendered]
    simp [empty, Listing.empty]
  have hcount : o.stored.toNat = past.countP hasStored := by simpa [empty] using hbetween.stored
  have hstored : o.stored = past.any hasStored := by
    rw [Bool.eq_iff_iff, List.any_eq_true, ← List.countP_pos_iff, ← hcount]
    cases o.stored <;> simp
  have hpath : o.path = path := hbetween.path
  refine ⟨hpath, hrender, hcount ▸ Bool.toNat_le o.stored, fun result s' => ?_, fun d hd => ?_⟩
  · rw [← hpath, ← hstored, ← hrender]
    constructor
    · intro h
      rw [eq_of_storing h]
      exact ⟨rfl, rfl⟩
    · rintro ⟨rfl, rfl⟩
      exact storing_run F o s
  · rw [answer, run_store_of_failure hd]

end Output
end PocketBasic

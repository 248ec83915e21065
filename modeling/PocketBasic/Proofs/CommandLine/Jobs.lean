import PocketBasic.CommandLine.Run
import PocketBasic.Proofs.Files.FileSystem

/-!
# Arguments that describe a job

Arguments are valid if they can be read, none of them asks for the version or for help, there are
no operands among them, the file is given, and no path that is given is that of a directory.  Valid
arguments describe a job (`Describes`), and to run the command with them is to do the job
(`run_of_describes`).

A `-v` more makes the job a verbose one and changes nothing else (`Describes.verbose`).
-/

namespace PocketBasic
namespace CommandLine

/-! ## Options that were given -/

namespace Arguments

variable {a : Arguments} {s : Switch}

/-- The options that are mentioned are those that were given. -/
theorem mem_mentioned : s ∈ a.mentioned ↔ ∃ g ∈ a.given, g.switch = s := by
  have hfold : ∀ (given : List Given) (seen : List Switch),
      s ∈ given.foldl (fun seen g => if g.switch ∈ seen then seen else seen ++ [g.switch]) seen ↔
        s ∈ seen ∨ ∃ g ∈ given, g.switch = s := by
    intro given
    induction given with
    | nil =>
      intro seen
      simp
    | cons g given ih =>
      intro seen
      rw [List.foldl_cons, ih]
      split_ifs with hg
      · constructor
        · exact Or.imp_right fun ⟨g', hg', hs⟩ => ⟨g', List.mem_cons_of_mem _ hg', hs⟩
        · rintro (hs | ⟨g', hg', rfl⟩)
          · exact .inl hs
          · rcases List.mem_cons.mp hg' with rfl | hg'
            · exact .inl hg
            · exact .inr ⟨g', hg', rfl⟩
      · rw [List.mem_append, List.mem_singleton]
        constructor
        · rintro ((hs | rfl) | ⟨g', hg', hs⟩)
          · exact .inl hs
          · exact .inr ⟨g, List.mem_cons_self, rfl⟩
          · exact .inr ⟨g', List.mem_cons_of_mem _ hg', hs⟩
        · rintro (hs | ⟨g', hg', rfl⟩)
          · exact .inl (.inl hs)
          · rcases List.mem_cons.mp hg' with rfl | hg'
            · exact .inl (.inr rfl)
            · exact .inr ⟨g', hg', rfl⟩
  rw [mentioned, hfold]
  simp

/-- None of the options acts at once exactly if none of those given does. -/
theorem immediate?_eq_none_iff : a.immediate? = none ↔ ∀ g ∈ a.given, g.switch.isImmediate = false := by
  rw [immediate?, List.find?_eq_none]
  constructor
  · intro h g hg
    exact Bool.not_eq_true _ ▸ h g.switch (mem_mentioned.mpr ⟨g, hg, rfl⟩)
  · intro h s hs
    obtain ⟨g, hg, rfl⟩ := mem_mentioned.mp hs
    rw [h g hg]
    exact Bool.false_ne_true

end Arguments

/-! ## Jobs -/

variable {σ ι : Type}

/-- Valid arguments in a state of a file system, and the job that they describe. -/
structure Describes (F : FileSystem σ ι) (s : σ) (arguments : List String) (job : Job) : Prop where
  exists_read : ∃ a, Arguments.read arguments = .ok a ∧ a.immediate? = none ∧ a.operands = [] ∧
    a.value? .file = some job.file ∧ a.value? .output = job.output ∧
    a.has .tokens = job.tokens ∧ a.has .verbose = job.verbose
  file : F.isDirectory job.file s = false
  output : ∀ path, job.output = some path → F.isDirectory path s = false

variable {F : FileSystem σ ι} {s : σ} {arguments : List String} {job : Job}

/-- No directory is found among the values of options if none of them is one. -/
theorem run_findDirectory {a : Arguments} {switches : List Switch}
    (h : ∀ switch path, switch.takesValue = true → a.value? switch = some path →
      F.isDirectory path s = false) :
    (findDirectory F.disk a switches).run s = (none, s) := by
  induction switches with
  | nil => rfl
  | cons switch later ih =>
    rw [findDirectory]
    split
    · exact ih
    · rename_i path hpath
      rw [run_bind_of_run (F.run_isDirectory path)]
      cases hvalue : switch.takesValue with
      | false => exact ih
      | true =>
        rw [h switch path hvalue hpath]
        exact ih

/-- To run the command with valid arguments is to do the job that they describe. -/
theorem run_of_describes (h : Describes F s arguments job) :
    (run F.disk arguments).run s = (perform F.disk job).run s := by
  obtain ⟨a, hread, himmediate, hoperands, hfile, houtput, htokens, hverbose⟩ := h.exists_read
  have hdirectory : (findDirectory F.disk a a.mentioned).run s = (none, s) := by
    refine run_findDirectory fun switch path hvalue hpath => ?_
    cases switch with
    | file =>
      obtain rfl := Option.some.inj (hfile.symm.trans hpath)
      exact h.file
    | output => exact h.output path (houtput.symm.trans hpath)
    | tokens | verbose | version | help => cases hvalue
  have hjob : (jobOf F.disk a).run s = (.ok job, s) := by
    rw [jobOf, run_bind_of_run hdirectory, hfile, houtput, htokens, hverbose, hoperands]
    rfl
  rw [run, hread]
  dsimp only
  rw [himmediate]
  dsimp only
  rw [run_bind_of_run hjob]

/-! ## Verbose runs -/

/-- An option at the front of the arguments is read before those that it leaves. -/
theorem read_of_readOption {argument : String} {rest left : List String} {given : List Given}
    {a : Arguments} (hdashes : argument ≠ "--") (hoption : Arguments.isOption argument = true)
    (hgiven : Arguments.readOption argument.toList rest = .ok (given, left))
    (h : Arguments.read left = .ok a) :
    Arguments.read (argument :: rest) = .ok { a with given := given ++ a.given } := by
  rw [Arguments.read, if_neg hdashes, if_pos hoption]
  split
  · rename_i e herror
    rw [hgiven] at herror
    cases herror
  · rename_i given' left' hok
    rw [hgiven] at hok
    cases hok
    rw [h]

/-- A `-v` before other arguments is one more option. -/
theorem read_verbose {a : Arguments} (h : Arguments.read arguments = .ok a) :
    Arguments.read ("-v" :: arguments) =
      .ok { a with given := ⟨.verbose, ""⟩ :: a.given } := by
  have hgiven : Arguments.readOption "-v".toList arguments =
      .ok ([⟨.verbose, ""⟩], arguments) := by rfl
  exact read_of_readOption (by decide) (by decide) hgiven h

/-- One more option is the first one, which is not the last of its kind if there is another. -/
theorem value?_cons {a : Arguments} {g : Given} {switch : Switch} (h : g.switch ≠ switch) :
    Arguments.value? { a with given := g :: a.given } switch = a.value? switch := by
  rw [Arguments.value?, Arguments.value?, List.reverse_cons, List.find?_append,
    List.find?_cons_of_neg (by simpa using h), List.find?_nil, Option.or_none]

/-- With a `-v` more, the arguments describe the same job as a verbose one. -/
theorem Describes.verbose (h : Describes F s arguments job) :
    Describes F s ("-v" :: arguments) { job with verbose := true } := by
  obtain ⟨a, hread, himmediate, hoperands, hfile, houtput, htokens, hverbose⟩ := h.exists_read
  refine ⟨⟨_, read_verbose hread, ?_, hoperands, ?_, ?_, ?_, ?_⟩, h.file, h.output⟩
  · rw [Arguments.immediate?_eq_none_iff] at himmediate ⊢
    intro g hg
    rcases List.mem_cons.mp hg with rfl | hg
    · rfl
    · exact himmediate g hg
  · rw [value?_cons (by decide), hfile]
  · rw [value?_cons (by decide), houtput]
  · rw [← htokens]
    rfl
  · rfl

end CommandLine
end PocketBasic

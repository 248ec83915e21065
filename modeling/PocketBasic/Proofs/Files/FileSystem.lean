import Mathlib.Tactic.SplitIfs
import PocketBasic.Output

/-!
# File systems

What is said of files is said of every file system, and little is asked of one.  A file system
has states.  In a state, entries stand at addresses and paths lead to addresses.  Reading does not
change the state, and what is read is the content of the file that the path leads to.  A write is
refused, and then there is no new state, or it stores all bytes where the path leads to and changes
nothing else.  Why an access is refused is left to the file system.

The tree in memory is one (`FileTree.fileSystem`).  What has to be shown for it is that the path
of a file that was written leads to that file (`FileTree.walk_put`), which need not have been there
before.
-/

namespace PocketBasic

/-- An action is run before those that follow it. -/
theorem run_bind_of_run {σ α β : Type} {action : StateM σ α} {a : α} {s s' : σ}
    (h : action.run s = (a, s')) (next : α → StateM σ β) :
    (action >>= next).run s = (next a).run s' := by
  rw [StateT.run_bind, h]
  rfl

/-- A file system with states `σ` and addresses `ι`. -/
structure FileSystem (σ ι : Type) where
  /-- What stands at an address. -/
  entry? : σ → ι → Option Entry
  /-- Where a path leads to. -/
  address? : σ → Path → Option ι
  read : Path → σ → Except Refusal (List UInt8)
  write : Path → List UInt8 → σ → Except Refusal σ
  isDirectory : String → σ → Bool
  /-- What is read is the content of the file that the path leads to. -/
  entry?_of_read {path : Path} {s : σ} {bytes : List UInt8} (h : read path s = .ok bytes) :
    ∃ a, address? s path = some a ∧ entry? s a = some (.file bytes)
  /-- What was written is the content of the file that the path leads to, and all else is as it
  was. -/
  entry?_of_write {path : Path} {bytes : List UInt8} {s s' : σ}
    (h : write path bytes s = .ok s') :
    ∃ a, address? s' path = some a ∧ entry? s' a = some (.file bytes) ∧
      ∀ b, b ≠ a → entry? s' b = entry? s b

namespace FileSystem

variable {σ ι : Type}

/-- A file system as a disk. -/
def disk (F : FileSystem σ ι) : Disk (StateM σ) where
  read path := fun s => (F.read path s, s)
  write path bytes := fun s =>
    match F.write path bytes s with
    | .ok written => (.ok (), written)
    | .error refusal => (.error refusal, s)
  isDirectory text := fun s => (F.isDirectory text s, s)

section Disk

variable (F : FileSystem σ ι) (path : Path) {bytes : List UInt8} {s s' : σ}

@[simp] theorem run_read : (F.disk.read path).run s = (F.read path s, s) := rfl

@[simp] theorem run_isDirectory (text : String) :
    (F.disk.isDirectory text).run s = (F.isDirectory text s, s) := rfl

theorem run_write_of_ok (h : F.write path bytes s = .ok s') :
    (F.disk.write path bytes).run s = (.ok (), s') := by
  show (match F.write path bytes s with
    | .ok written => (Except.ok (), written)
    | .error refusal => (.error refusal, s)) = _
  rw [h]

theorem run_write_of_error {refusal : Refusal} (h : F.write path bytes s = .error refusal) :
    (F.disk.write path bytes).run s = (.error refusal, s) := by
  show (match F.write path bytes s with
    | .ok written => (Except.ok (), written)
    | .error refusal => (.error refusal, s)) = _
  rw [h]

/-! Storing an output -/

variable {o : Output} {path : Path}

theorem run_store_of_error {d : Diagnostic} (h : o.content? = .error d) :
    (o.store F.disk).run s = ((.error d, o), s) := by
  rw [Output.store, h]
  rfl

theorem run_store_of_refused {refusal : Refusal} (h : o.content? = .ok (path, bytes))
    (hwrite : F.write path bytes s = .error refusal) :
    (o.store F.disk).run s = ((.error (o.refused refusal.reason), o), s) := by
  rw [Output.store, h]
  dsimp only
  rw [run_bind_of_run (F.run_write_of_error _ hwrite)]
  rfl

theorem run_store_of_ok (h : o.content? = .ok (path, bytes))
    (hwrite : F.write path bytes s = .ok s') :
    (o.store F.disk).run s = ((.ok o.listing.render, { o with stored := true }), s') := by
  rw [Output.store, h]
  dsimp only
  rw [run_bind_of_run (F.run_write_of_ok _ hwrite)]
  rfl

end Disk

/-- The path leads to a file with this content. -/
def Holds (F : FileSystem σ ι) (s : σ) (path : Path) (bytes : List UInt8) : Prop :=
  ∃ a, F.address? s path = some a ∧ F.entry? s a = some (.file bytes)

/-- Between two states the file that the path leads to has got this content, and nothing else has
changed. -/
def Stores (F : FileSystem σ ι) (path : Path) (bytes : List UInt8) (s s' : σ) : Prop :=
  ∃ a, F.address? s' path = some a ∧ F.entry? s' a = some (.file bytes) ∧
    ∀ b, b ≠ a → F.entry? s' b = F.entry? s b

theorem Stores.holds {F : FileSystem σ ι} {path : Path} {bytes : List UInt8} {s s' : σ}
    (h : F.Stores path bytes s s') : F.Holds s' path bytes := by
  obtain ⟨a, haddress, hentry, -⟩ := h
  exact ⟨a, haddress, hentry⟩

end FileSystem

/-! ## The tree in memory -/

namespace FileTree

variable {t : FileTree} {here address : Address} {pieces : List String} {e : Option Entry}

/-- Where a walk ends at something else than a directory, that is what stands there. -/
theorem get?_of_walk (h : t.walk here pieces = .ok (address, e)) (he : e ≠ some .directory) :
    address ≠ [] ∧ t.get? address = e := by
  induction pieces generalizing here with
  | nil =>
    obtain ⟨-, rfl⟩ := Prod.mk.inj (Except.ok.inj h)
    exact absurd rfl he
  | cons piece rest ih =>
    rw [walk] at h
    split at h
    · exact ih h
    split at h
    · exact ih h
    split at h
    · cases h
    split at h
    · exact ih h
    · rename_i bytes hget
      split at h
      · obtain ⟨rfl, rfl⟩ := Prod.mk.inj (Except.ok.inj h)
        exact ⟨List.cons_ne_nil _ _, hget⟩
      · cases h
    · rename_i hget
      split at h
      · obtain ⟨rfl, rfl⟩ := Prod.mk.inj (Except.ok.inj h)
        exact ⟨List.cons_ne_nil _ _, hget⟩
      · cases h

/-- When a file was put where a walk has ended, the walk ends at that file. -/
theorem walk_put {bytes : List UInt8} (h : t.walk here pieces = .ok (address, e))
    (he : e ≠ some .directory) :
    (t.put address (.file bytes)).walk here pieces = .ok (address, some (.file bytes)) := by
  obtain ⟨hne, hentry⟩ := get?_of_walk h he
  have hget := t.get?_put hne (.file bytes)
  induction pieces generalizing here with
  | nil =>
    obtain ⟨-, rfl⟩ := Prod.mk.inj (Except.ok.inj h)
    exact absurd rfl he
  | cons piece rest ih =>
    rw [walk] at h ⊢
    split at h
    · rename_i hnone
      rw [if_pos hnone]
      exact ih h
    rename_i hnone
    rw [if_neg hnone]
    split at h
    · rename_i hup
      rw [if_pos hup]
      exact ih h
    rename_i hup
    rw [if_neg hup]
    split at h
    · cases h
    rename_i hlong
    rw [if_neg hlong]
    -- a directory on the way is not where the file was put, and what is at its end is
    split at h
    · rename_i hdirectory
      have haway : piece :: here ≠ address := by
        rintro rfl
        exact he (hentry.symm.trans hdirectory)
      rw [hget, if_neg haway, hdirectory]
      exact ih h
    all_goals
      split at h
      · rename_i hlast
        obtain ⟨rfl, -⟩ := Prod.mk.inj (Except.ok.inj h)
        rw [hget, if_pos rfl]
        exact if_pos hlast
      · cases h

/-- Where a text leads to something else than a directory, that is what stands there. -/
theorem get?_of_locate {text : String} (h : t.locate text = .ok (address, e))
    (he : e ≠ some .directory) : address ≠ [] ∧ t.get? address = e := by
  unfold locate at h
  split_ifs at h
  exact get?_of_walk h he

theorem locate_put {text : String} {bytes : List UInt8} (h : t.locate text = .ok (address, e))
    (he : e ≠ some .directory) :
    (t.put address (.file bytes)).locate text = .ok (address, some (.file bytes)) := by
  unfold locate at h ⊢
  split_ifs at h ⊢
  exact walk_put h he

/-- The address that a text leads to, if the way to it is free. -/
def addressOf? (t : FileTree) (text : String) : Option Address :=
  match t.locate text with
  | .ok (address, _) => some address
  | .error _ => none

theorem addressOf?_of_locate {text : String} (h : t.locate text = .ok (address, e)) :
    t.addressOf? text = some address := by
  rw [addressOf?, h]

theorem entry_of_read {text : String} {bytes : List UInt8} (h : t.read text = .ok bytes) :
    ∃ a, t.addressOf? text = some a ∧ t.get? a = some (.file bytes) := by
  unfold read at h
  split at h
  · rename_i address found hlocate
    obtain rfl := Except.ok.inj h
    exact ⟨address, addressOf?_of_locate hlocate, (get?_of_locate hlocate (by simp)).2⟩
  · cases h
  · cases h
  · cases h

theorem entry_of_write {text : String} {bytes : List UInt8} {u : FileTree}
    (h : t.write text bytes = .ok u) :
    ∃ a, u.addressOf? text = some a ∧ u.get? a = some (.file bytes) ∧
      ∀ b, b ≠ a → u.get? b = t.get? b := by
  unfold write at h
  split at h
  · cases h
  · rename_i address e hfree hlocate
    obtain rfl := Except.ok.inj h
    have hdirectory : e ≠ some .directory := by
      rintro rfl
      exact hfree rfl
    have hne := (get?_of_locate hlocate hdirectory).1
    refine ⟨address, addressOf?_of_locate (locate_put hlocate hdirectory), ?_, ?_⟩
    · rw [t.get?_put hne, if_pos rfl]
    · intro b hb
      rw [t.get?_put hne, if_neg hb]
  · cases h

/-- The tree in memory as a file system. -/
def fileSystem : FileSystem FileTree Address where
  entry? := get?
  address? t path := t.addressOf? (toString path)
  read path t := t.read (toString path)
  write path bytes t := t.write (toString path) bytes
  isDirectory text t := t.isDirectory text
  entry?_of_read := entry_of_read
  entry?_of_write := entry_of_write

/-- The disk that the tree is used as is the one of the file system. -/
theorem disk_fileSystem : fileSystem.disk = FileTree.disk := by
  have hwrite : fileSystem.disk.write = FileTree.disk.write := by
    funext path bytes t
    unfold FileSystem.disk FileTree.disk fileSystem
    dsimp only
    cases t.write (toString path) bytes
    all_goals rfl
  calc
    fileSystem.disk = { FileTree.disk with write := fileSystem.disk.write } := rfl
    _ = FileTree.disk := by rw [hwrite]

end FileTree
end PocketBasic

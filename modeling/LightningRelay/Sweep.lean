import LightningRelay.Async.Prog
import LightningRelay.Codec.Stream
import Mathlib.Data.List.AList

/-!
# The migration of spendable outputs

`migrate_deprecated_spendable_outputs` of `sweep.rs` moves the descriptors that older versions kept in
three directories to LDK's `OutputSweeper`: pending files are moved to the processing directory, the
processing files are copied into one file of `spendable_outputs`, and what that directory holds is
tracked before the directories are removed.  A failed operation is unwrapped and aborts the node.

The persister of LDK writes a file by writing a temporary file beside it, which it then renames.  The
model writes the temporary file byte by byte, so that an interrupted write leaves any beginning of it.

`Files.moved`, `Files.copied` and `Files.collected` say what moving and copying makes of the files.
-/

set_option autoImplicit false

namespace LightningRelay

open Async

namespace Sweep

/-! ## The files -/

/-- A directory: file names with their contents. -/
abbrev Dir : Type := AList fun _ : String => List UInt8

/-- The directories under `ldk_data_dir`. -/
inductive Folder where
  /-- `pending_spendable_outputs`. -/
  | pending
  /-- `processing_spendable_outputs`. -/
  | processing
  /-- `spendable_outputs`. -/
  | spendables
  deriving DecidableEq, Repr

/-- The directories that exist, and the descriptors passed to `track_spendable_outputs`, which LDK
persists. -/
@[ext] structure Files (δ : Type) where
  folder : Folder → Option Dir
  tracked : List δ

inductive FsOp (δ : Type) where
  | exists? (d : Folder)
  | readDir (d : Folder)
  | createDirAll (d : Folder)
  | rename (d : Folder) (name : String) (d' : Folder) (name' : String)
  | read (d : Folder) (name : String)
  /-- `hex_str` of `get_secure_random_bytes`. -/
  | secureRandomKey
  /-- `File::create`, which empties a file that exists. -/
  | create (d : Folder) (name : String)
  /-- One byte of `write_all`. -/
  | append (d : Folder) (name : String) (byte : UInt8)
  | removeFile (d : Folder) (name : String)
  | removeDir (d : Folder)
  | trackSpendableOutputs (outputs : List δ)
  /-- The end of an `unwrap` of an error. -/
  | panic

@[reducible] def FsOp.Resp {δ : Type} : FsOp δ → Type
  | .exists? _ => Bool
  | .readDir _ => Option (List String)
  | .read _ _ => List UInt8
  | .secureRandomKey => String
  | .createDirAll _ | .rename _ _ _ _ | .create _ _ | .append _ _ _ | .removeFile _ _ | .removeDir _
  | .trackSpendableOutputs _ => Unit
  | .panic => Empty

/-- The name of the persister's temporary file for the file `key`. -/
def tmpName (key : String) (counter : ℕ) : String := s!"{key}.{counter}.tmp"

/-- What the migration does not choose: the codec of descriptors, the order in which a directory is
listed, the random keys, which are not in use, and the persister's counter of temporary files. -/
structure Machine (δ : Type) where
  reader : Codec.Reader UInt8 δ
  order : List String → List String
  order_perm : ∀ names, (order names).Perm names
  key : Dir → String
  counter : ℕ
  key_fresh : ∀ dir, key dir ∉ dir
  tmp_fresh : ∀ dir, tmpName (key dir) counter ∉ dir

section Model

variable {δ : Type}

namespace Files

/-- The contents of a file. -/
def file (w : Files δ) (d : Folder) (name : String) : Option (List UInt8) :=
  (w.folder d).bind fun dir => dir.lookup name

/-- The files with the directory `d` as given. -/
def set (w : Files δ) (d : Folder) (dir : Option Dir) : Files δ :=
  { w with folder := Function.update w.folder d dir }

end Files

/-- Perform an operation; `none` is an error, which the caller unwraps. -/
def act (m : Machine δ) : (o : FsOp δ) → Files δ → Option (o.Resp × Files δ)
  | .exists? d, w => some ((w.folder d).isSome, w)
  | .readDir d, w => some ((w.folder d).map fun dir => m.order dir.keys, w)
  | .createDirAll d, w => some ((), w.set d (some ((w.folder d).getD ∅)))
  | .rename d name d' name', w =>
    match w.folder d, w.file d name with
    | some dir, some bytes =>
      let w' := w.set d (some (dir.erase name))
      (w'.folder d').map fun dir' => ((), w'.set d' (some (dir'.insert name' bytes)))
    | _, _ => none
  | .read d name, w => (w.file d name).map fun bytes => (bytes, w)
  | .secureRandomKey, w => some (m.key ((w.folder .spendables).getD ∅), w)
  | .create d name, w => (w.folder d).map fun dir => ((), w.set d (some (dir.insert name [])))
  | .append d name byte, w =>
    match w.folder d, w.file d name with
    | some dir, some bytes => some ((), w.set d (some (dir.insert name (bytes ++ [byte]))))
    | _, _ => none
  | .removeFile d name, w =>
    match w.folder d with
    | some dir => if name ∈ dir.keys then some ((), w.set d (some (dir.erase name))) else none
    | none => none
  | .removeDir d, w =>
    match w.folder d with
    | some dir => if dir.keys = [] then some ((), w.set d none) else none
    | none => none
  | .trackSpendableOutputs outputs, w => some ((), { w with tracked := w.tracked ++ outputs })
  | .panic, _ => none

/-! ## The migration -/

abbrev SweepProg (δ : Type) : Type → Type := Prog (FsOp δ) FsOp.Resp

/-- Perform one operation. -/
abbrev fs (o : FsOp δ) : SweepProg δ o.Resp := Prog.perform o

/-- The node aborts. -/
def abort {α : Type} : SweepProg δ α := fs .panic >>= fun e => nomatch e

/-- Whether none of the directories exists. -/
def nothingToMigrate : SweepProg δ Bool := do
  if ← fs (.exists? .pending) then pure false
  else if ← fs (.exists? .processing) then pure false
  else pure !(← fs (.exists? .spendables))

/-- Only a file with a name of 64 bytes is moved: others may be temporary files. -/
def movePending (name : String) : SweepProg δ Unit :=
  if name.utf8ByteSize = 64 then do
    fs (.createDirAll .processing)
    fs (.rename .pending name .processing name)
  else pure ()

/-- The contents of files, one after the other. -/
def readFiles (d : Folder) : List String → SweepProg δ (List UInt8)
  | [] => pure []
  | name :: names => do
    let bytes ← fs (.read d name)
    let rest ← readFiles d names
    pure (bytes ++ rest)

/-- The standard library's removal of a directory with its files. -/
def removeDirAll (d : Folder) : SweepProg δ Unit := do
  match ← fs (.readDir d) with
  | none => abort
  | some names => do
    Prog.forEach (fun name => fs (.removeFile d name)) names
    fs (.removeDir d)

/-- The persister's write of the file `key` of `spendable_outputs`. -/
def persisterWrite (m : Machine δ) (key : String) (bytes : List UInt8) : SweepProg δ Unit := do
  fs (.createDirAll .spendables)
  fs (.create .spendables (tmpName key m.counter))
  Prog.forEach (fun byte => fs (.append .spendables (tmpName key m.counter) byte)) bytes
  fs (.rename .spendables (tmpName key m.counter) .spendables key)

/-- The part that moves and copies pending files. -/
def collectPending (m : Machine δ) : SweepProg δ Unit := do
  match ← fs (.readDir .pending) with
  | none => pure ()
  | some names => do
    Prog.forEach movePending names
    let processing ← fs (.readDir .processing)
    let outputs ← readFiles .processing (processing.getD [])
    if outputs.isEmpty then pure ()
    else do
      let key ← fs .secureRandomKey
      persisterWrite m key outputs
      removeDirAll .processing

/-- The descriptors of the files of `spendable_outputs`. -/
def readOutputs (m : Machine δ) : List String → SweepProg δ (List δ)
  | [] => pure []
  | name :: names => do
    let bytes ← fs (.read .spendables name)
    match m.reader.readAll bytes with
    | none => abort
    | some outputs => do
      let rest ← readOutputs m names
      pure (outputs ++ rest)

/-- The part that tracks what `spendable_outputs` holds and removes the directories. -/
def trackOutputs (m : Machine δ) : SweepProg δ Unit := do
  let spendables ← fs (.readDir .spendables)
  let outputs ← readOutputs m (spendables.getD [])
  fs (.trackSpendableOutputs outputs)
  removeDirAll .spendables
  removeDirAll .pending

def migrateDeprecatedSpendableOutputs (m : Machine δ) : SweepProg δ Unit := do
  if ← nothingToMigrate then pure ()
  else do
    collectPending m
    trackOutputs m

/-! ## What the files hold -/

namespace Files

variable {w : Files δ} {d d' : Folder} {dir dir' : Option Dir} {name : String}

@[simp] theorem folder_set_self : (w.set d dir).folder d = dir := Function.update_self ..

theorem folder_set_of_ne (h : d' ≠ d) : (w.set d dir).folder d' = w.folder d' :=
  Function.update_of_ne h ..

@[simp] theorem tracked_set : (w.set d dir).tracked = w.tracked := rfl

@[simp] theorem set_set : (w.set d dir).set d dir' = w.set d dir' := by
  ext1
  · exact Function.update_idem ..
  · rfl

theorem set_comm (h : d ≠ d') : (w.set d dir).set d' dir' = (w.set d' dir').set d dir := by
  ext1
  · exact Function.update_comm h ..
  · rfl

theorem set_eq_self (h : w.folder d = dir) : w.set d dir = w := by
  subst h
  ext1
  · exact Function.update_eq_self ..
  · rfl

@[simp] theorem file_set_self :
    (w.set d dir).file d name = dir.bind fun dir => dir.lookup name := by
  rw [file, folder_set_self]

theorem file_set_of_ne (h : d' ≠ d) : (w.set d dir).file d' name = w.file d' name := by
  rw [file, folder_set_of_ne h, file]

theorem file_of_folder {dir : Dir} (h : w.folder d = some dir) : w.file d name = dir.lookup name := by
  rw [file, h]
  rfl

theorem file_of_none (h : w.folder d = none) : w.file d name = none := by
  rw [file, h]
  rfl

/-- An empty directory holds no file. -/
theorem file_createDirAll :
    (w.set d (some ((w.folder d).getD ∅))).file d' name = w.file d' name := by
  by_cases h : d' = d
  · subst h
    rw [file_set_self, file]
    rcases w.folder d' with _ | dir <;> rfl
  · exact file_set_of_ne h

variable (m : Machine δ)

/-- The names of the files of a directory, in the order in which they are listed. -/
def listing (w : Files δ) (d : Folder) : List String :=
  ((w.folder d).map fun dir => m.order dir.keys).getD []

/-- The contents of the files of a directory, one after the other. -/
def contents (w : Files δ) (d : Folder) : List UInt8 :=
  ((w.listing m d).filterMap (w.file d)).flatten

variable {m}

theorem mem_listing : name ∈ w.listing m d ↔ (w.file d name).isSome := by
  unfold listing
  rcases hdir : w.folder d with _ | dir
  · simp [file_of_none hdir]
  · rw [file_of_folder hdir, AList.lookup_isSome, AList.mem_keys]
    exact (m.order_perm _).mem_iff

theorem nodup_listing : (w.listing m d).Nodup := by
  unfold listing
  rcases w.folder d with _ | dir
  · exact List.nodup_nil
  · exact (m.order_perm _).nodup_iff.2 dir.keys_nodup

theorem mem_filterMap_listing {bytes : List UInt8} :
    bytes ∈ (w.listing m d).filterMap (w.file d) ↔ ∃ name, w.file d name = some bytes := by
  rw [List.mem_filterMap]
  constructor
  · rintro ⟨name, -, h⟩
    exact ⟨name, h⟩
  · rintro ⟨name, h⟩
    exact ⟨name, mem_listing.2 (by rw [h]; rfl), h⟩

/-- A file with a descriptor is in the concatenation, if every file consists of descriptors. -/
theorem readAll_contents
    (h : ∀ name bytes, w.file d name = some bytes → (m.reader.readAll bytes).isSome) :
    ∃ all, m.reader.readAll (w.contents m d) = some all ∧
      ∀ name bytes ds, w.file d name = some bytes → m.reader.readAll bytes = some ds →
        ds ⊆ all := by
  obtain ⟨all, hall, hsub⟩ := Codec.Reader.readAll_flatten fun bytes hb => by
    obtain ⟨name, hb⟩ := mem_filterMap_listing.1 hb
    exact h name bytes hb
  exact ⟨all, hall, fun name bytes ds hb => hsub bytes (mem_filterMap_listing.2 ⟨name, hb⟩) ds⟩

/-! ### Moving -/

/-- The files after the pending file `name` has had its turn: it is moved over a processing file of
the same name. -/
def move (w : Files δ) (name : String) : Files δ :=
  if name.utf8ByteSize = 64 then
    (w.set .pending ((w.folder .pending).map (·.erase name))).set .processing
      (some (((w.folder .processing).getD ∅).insert name ((w.file .pending name).getD [])))
  else w

variable (m) in
/-- The files after the pending ones have been moved. -/
def moved (w : Files δ) : Files δ := (w.listing m .pending).foldl move w

@[simp] theorem spendables_move : (w.move name).folder .spendables = w.folder .spendables := by
  unfold move
  split_ifs
  · rw [folder_set_of_ne (by decide), folder_set_of_ne (by decide)]
  · rfl

@[simp] theorem tracked_move : (w.move name).tracked = w.tracked := by
  unfold move
  split_ifs <;> rfl

theorem pending_move : ((w.move name).folder .pending).isSome = (w.folder .pending).isSome := by
  unfold move
  split_ifs
  · rw [folder_set_of_ne (by decide), folder_set_self, Option.isSome_map]
  · rfl

theorem pending_move_self (hsize : name.utf8ByteSize = 64) :
    (w.move name).file .pending name = none := by
  rw [move, if_pos hsize, file_set_of_ne (by decide), file_set_self]
  rcases w.folder .pending with _ | dir
  · rfl
  · exact AList.lookup_erase name dir

theorem pending_move_of_ne {n : String} (h : n ≠ name) :
    (w.move name).file .pending n = w.file .pending n := by
  unfold move
  split_ifs
  · rw [file_set_of_ne (by decide), file_set_self, file]
    rcases w.folder .pending with _ | dir
    · rfl
    · exact AList.lookup_erase_ne h
  · rfl

theorem processing_move {n : String} (h : (w.file .pending name).isSome) :
    (w.move name).file .processing n =
      if n = name ∧ n.utf8ByteSize = 64 then w.file .pending n else w.file .processing n := by
  obtain ⟨bytes, hbytes⟩ := Option.isSome_iff_exists.1 h
  by_cases hsize : name.utf8ByteSize = 64
  · rw [move, if_pos hsize, file_set_self, Option.bind_some]
    by_cases hn : n = name
    · subst hn
      rw [if_pos ⟨rfl, hsize⟩, hbytes]
      exact AList.lookup_insert _
    · rw [if_neg fun hboth => hn hboth.1, AList.lookup_insert_ne hn, file]
      rcases w.folder .processing with _ | dir <;> rfl
  · rw [move, if_neg hsize, if_neg]
    rintro ⟨rfl, hn⟩
    exact hsize hn

theorem spendables_foldl_move {names : List String} :
    (names.foldl move w).folder .spendables = w.folder .spendables := by
  induction names generalizing w with
  | nil => rfl
  | cons name names ih => rw [List.foldl_cons, ih, spendables_move]

theorem tracked_foldl_move {names : List String} : (names.foldl move w).tracked = w.tracked := by
  induction names generalizing w with
  | nil => rfl
  | cons name names ih => rw [List.foldl_cons, ih, tracked_move]

theorem pending_foldl_move {names : List String} :
    ((names.foldl move w).folder .pending).isSome = (w.folder .pending).isSome := by
  induction names generalizing w with
  | nil => rfl
  | cons name names ih => rw [List.foldl_cons, ih, pending_move]

theorem processing_foldl_move {names : List String} (hnodup : names.Nodup)
    (h : ∀ name ∈ names, (w.file .pending name).isSome) {n : String} :
    (names.foldl move w).file .processing n =
      if n ∈ names ∧ n.utf8ByteSize = 64 then w.file .pending n else w.file .processing n := by
  induction names generalizing w with
  | nil => simp
  | cons name names ih =>
    obtain ⟨hname, hnames⟩ := List.forall_mem_cons.1 h
    obtain ⟨hnotin, hnodup⟩ := List.nodup_cons.1 hnodup
    have hrest : ∀ k ∈ names, (w.move name).file .pending k = w.file .pending k :=
      fun k hk => pending_move_of_ne fun heq => hnotin (heq ▸ hk)
    rw [List.foldl_cons, ih hnodup fun k hk => by rw [hrest k hk]; exact hnames k hk,
      processing_move hname]
    by_cases hn : n ∈ names
    · have hne : n ≠ name := fun heq => hnotin (heq ▸ hn)
      simp [hn, hne, hrest n hn]
    · by_cases heq : n = name
      · subst heq
        simp [hnotin]
      · simp [hn, heq]

/-- A processing file after the moves: the pending file of its name if that was moved, and otherwise
what it was. -/
theorem processing_moved {n : String} : (w.moved m).file .processing n =
    if n.utf8ByteSize = 64 ∧ (w.file .pending n).isSome then w.file .pending n
    else w.file .processing n := by
  rw [moved, processing_foldl_move nodup_listing fun name hname => mem_listing.1 hname]
  simp only [mem_listing, and_comm]

/-! ### Copying -/

variable (m)

/-- What is copied into `spendable_outputs`. -/
def copied (w : Files δ) : List UInt8 := (w.moved m).contents m .processing

/-- The files after a write of the persister. -/
def written (w : Files δ) (bytes : List UInt8) : Files δ :=
  let dir := (w.folder .spendables).getD ∅
  w.set .spendables (some (dir.insert (m.key dir) bytes))

/-- The files after pending ones have been moved and copied. -/
def collected (w : Files δ) : Files δ :=
  if w.copied m = [] then w.moved m
  else ((w.moved m).written m (w.copied m)).set .processing none

variable {m}

theorem tracked_collected : (w.collected m).tracked = w.tracked := by
  unfold collected
  split_ifs <;> exact tracked_foldl_move

theorem pending_collected :
    ((w.collected m).folder .pending).isSome = (w.folder .pending).isSome := by
  unfold collected
  split_ifs
  · exact pending_foldl_move
  · rw [folder_set_of_ne (by decide), written, folder_set_of_ne (by decide)]
    exact pending_foldl_move

theorem spendables_collected : ((w.collected m).folder .spendables).isSome ↔
    (w.folder .spendables).isSome ∨ w.copied m ≠ [] := by
  unfold collected
  split_ifs with hnil
  · rw [moved, spendables_foldl_move]
    simp [hnil]
  · rw [folder_set_of_ne (by decide), written, folder_set_self]
    simp [hnil]

/-- The files of `spendable_outputs` are then those that were there and the copy. -/
theorem file_spendables_collected {bytes : List UInt8} :
    (∃ name, (w.collected m).file .spendables name = some bytes) ↔
      (∃ name, w.file .spendables name = some bytes) ∨ w.copied m ≠ [] ∧ bytes = w.copied m := by
  have hmoved : (w.moved m).folder .spendables = w.folder .spendables := spendables_foldl_move
  unfold collected
  split_ifs with hnil
  · simp [file, hmoved, hnil]
  · rw [and_iff_right hnil]
    have hlookup : ∀ n, (((w.moved m).written m (w.copied m)).set .processing none).file .spendables n =
        if n = m.key ((w.folder .spendables).getD ∅) then some (w.copied m)
        else w.file .spendables n := by
      intro n
      rw [file_set_of_ne (by decide), written, file_set_self, hmoved, Option.bind_some]
      split_ifs with hn
      · rw [hn]
        exact AList.lookup_insert _
      · rw [AList.lookup_insert_ne hn, file]
        rcases w.folder .spendables with _ | dir <;> rfl
    constructor
    · rintro ⟨n, hn⟩
      rw [hlookup] at hn
      split_ifs at hn
      · exact Or.inr (Option.some.inj hn).symm
      · exact Or.inl ⟨n, hn⟩
    · rintro (⟨n, hn⟩ | rfl)
      · refine ⟨n, ?_⟩
        rw [hlookup, if_neg, hn]
        -- the key is not in use
        rintro rfl
        rcases hdir : w.folder .spendables with _ | dir
        · rw [file_of_none hdir] at hn
          cases hn
        · rw [file_of_folder hdir, hdir] at hn
          exact m.key_fresh dir (AList.lookup_isSome.1 (by rw [Option.getD_some] at hn; rw [hn]; rfl))
      · exact ⟨_, (hlookup _).trans (if_pos rfl)⟩

end Files

end Model

end Sweep

end LightningRelay

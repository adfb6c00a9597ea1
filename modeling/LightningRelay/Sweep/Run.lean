import LightningRelay.Async.Crash
import LightningRelay.Sweep

/-!
# A run of the migration

What `migrate_deprecated_spendable_outputs` does when it is not interrupted.

* `exec_collectPending`: what is moved and copied, in closed form.
* `migrate_iff`: from which files a run ends, and what it has tracked then.
-/

set_option autoImplicit false

namespace LightningRelay

open Async

namespace Sweep

/-! ## Moving and copying -/

variable {δ : Type} {m : Machine δ} {w : Files δ} {d : Folder} {name : String}

open Prog

theorem act_rename {dir : Dir} {d' : Folder} {name' : String} {bytes : List UInt8}
    (hdir : w.folder d = some dir) (hbytes : w.file d name = some bytes) {dir' : Dir}
    (hdir' : (w.set d (some (dir.erase name))).folder d' = some dir') :
    act m (.rename d name d' name') w =
      some ((), (w.set d (some (dir.erase name))).set d' (some (dir'.insert name' bytes))) := by
  simp only [act, hdir, hbytes, hdir', Option.map_some]

/-- The move of a pending file, after the processing directory has been made. -/
theorem act_move (hsize : name.utf8ByteSize = 64) (h : (w.file .pending name).isSome) :
    act m (.rename .pending name .processing name)
        (w.set .processing (some ((w.folder .processing).getD ∅))) = some ((), w.move name) := by
  obtain ⟨bytes, hbytes⟩ := Option.isSome_iff_exists.1 h
  obtain ⟨dir, hdir, -⟩ := Option.bind_eq_some_iff.1 hbytes
  let made := w.set .processing (some ((w.folder .processing).getD ∅))
  have hpending : made.folder .pending = some dir := by
    rw [Files.folder_set_of_ne (by decide), hdir]
  have hfile : made.file .pending name = some bytes := by
    rw [Files.file_set_of_ne (by decide), hbytes]
  have hprocessing : (made.set .pending (some (dir.erase name))).folder .processing =
      some ((w.folder .processing).getD ∅) := by
    rw [Files.folder_set_of_ne (by decide), Files.folder_set_self]
  rw [act_rename hpending hfile hprocessing, Files.set_comm (by decide), Files.set_set,
    Files.set_comm (by decide), Files.move, if_pos hsize, hdir, hbytes]
  rfl

theorem exec_movePending (h : (w.file .pending name).isSome) :
    (movePending name).exec (act m) w = (some (), w.move name) := by
  unfold movePending
  split_ifs with hsize
  · rw [exec_perform _ rfl, exec_last (act_move hsize h)]
  · rw [Files.move, if_neg hsize]
    rfl

theorem exec_forEach_movePending {names : List String} (hnodup : names.Nodup)
    (h : ∀ name ∈ names, (w.file .pending name).isSome) :
    (forEach movePending names).exec (act m) w = (some (), names.foldl Files.move w) := by
  induction names generalizing w with
  | nil => rfl
  | cons name names ih =>
    obtain ⟨hname, hnames⟩ := List.forall_mem_cons.1 h
    obtain ⟨hnotin, hnodup⟩ := List.nodup_cons.1 hnodup
    rw [forEach_cons, exec_bind _ (exec_movePending hname), List.foldl_cons]
    refine ih hnodup fun n hn => ?_
    have hne : n ≠ name := fun heq => hnotin (heq ▸ hn)
    rw [Files.pending_move_of_ne hne]
    exact hnames n hn

theorem exec_readFiles {names : List String} (h : ∀ name ∈ names, (w.file d name).isSome) :
    (readFiles d names).exec (act m) w = (some (names.filterMap (w.file d)).flatten, w) := by
  induction names with
  | nil => rfl
  | cons name names ih =>
    obtain ⟨hname, hnames⟩ := List.forall_mem_cons.1 h
    obtain ⟨bytes, hbytes⟩ := Option.isSome_iff_exists.1 hname
    have hread : act m (.read d name) w = some (bytes, w) := by simp only [act, hbytes, Option.map_some]
    rw [readFiles, exec_perform _ hread, exec_bind _ (ih hnames), List.filterMap_cons_some hbytes]
    rfl

/-- A new file can be removed again. -/
theorem erase_insert {dir : Dir} (h : name ∉ dir) (bytes : List UInt8) :
    (dir.insert name bytes).erase name = dir := by
  refine AList.ext ?_
  rw [AList.insert_of_notMem h]
  exact List.kerase_cons_eq rfl

section Write

variable {dir : Dir}

theorem act_create : act m (.create d name) (w.set d (some dir)) =
    some ((), w.set d (some (dir.insert name []))) := by
  simp only [act, Files.folder_set_self, Option.map_some, Files.set_set]

theorem act_append (done : List UInt8) (byte : UInt8) :
    act m (.append d name byte) (w.set d (some (dir.insert name done))) =
      some ((), w.set d (some (dir.insert name (done ++ [byte])))) := by
  simp only [act, Files.folder_set_self, Files.file_set_self, Option.bind_some, AList.lookup_insert,
    Files.set_set, AList.insert_insert]

/-- The temporary file gets its name. -/
theorem act_rename_tmp (hdir : (w.folder .spendables).getD ∅ = dir) (bytes : List UInt8) :
    act m (.rename .spendables (tmpName (m.key dir) m.counter) .spendables (m.key dir))
        (w.set .spendables (some (dir.insert (tmpName (m.key dir) m.counter) bytes))) =
      some ((), w.written m bytes) := by
  let tmp := tmpName (m.key dir) m.counter
  have hbytes : (w.set .spendables (some (dir.insert tmp bytes))).file .spendables tmp = some bytes := by
    rw [Files.file_set_self, Option.bind_some, AList.lookup_insert]
  have hrest : ((w.set .spendables (some (dir.insert tmp bytes))).set .spendables
      (some ((dir.insert tmp bytes).erase tmp))).folder .spendables = some dir := by
    rw [Files.folder_set_self, erase_insert (m.tmp_fresh dir)]
  rw [act_rename Files.folder_set_self hbytes hrest, Files.set_set, Files.set_set, Files.written, hdir]

theorem exec_forEach_append (done bytes : List UInt8) :
    (forEach (fun byte => fs (.append d name byte)) bytes).exec (act m)
        (w.set d (some (dir.insert name done))) =
      (some (), w.set d (some (dir.insert name (done ++ bytes)))) := by
  induction bytes generalizing done with
  | nil =>
    rw [List.append_nil]
    rfl
  | cons byte bytes ih =>
    rw [forEach_cons, exec_bind _ (exec_last (act_append done byte)), ih, List.append_assoc]
    rfl

theorem exec_persisterWrite (hdir : (w.folder .spendables).getD ∅ = dir) (bytes : List UInt8) :
    (persisterWrite m (m.key dir) bytes).exec (act m) w = (some (), w.written m bytes) := by
  have hmake : act m (.createDirAll .spendables) w = some ((), w.set .spendables (some dir)) := by
    rw [← hdir]
    rfl
  unfold persisterWrite
  rw [exec_perform _ hmake, exec_perform _ act_create, exec_bind _ (exec_forEach_append [] bytes),
    List.nil_append, exec_last (act_rename_tmp hdir bytes)]

end Write

theorem exec_forEach_removeFile {names : List String} {dir : Dir} (hnodup : names.Nodup)
    (h : ∀ name ∈ names, name ∈ dir.keys) :
    ∃ dir' : Dir, (forEach (fun name => fs (.removeFile d name)) names).exec (act m)
        (w.set d (some dir)) = (some (), w.set d (some dir')) ∧
      ∀ n, n ∈ dir'.keys ↔ n ∈ dir.keys ∧ n ∉ names := by
  induction names generalizing dir with
  | nil => exact ⟨dir, rfl, fun n => by simp⟩
  | cons name names ih =>
    obtain ⟨hname, hnames⟩ := List.forall_mem_cons.1 h
    obtain ⟨hnotin, hnodup⟩ := List.nodup_cons.1 hnodup
    have hmem : ∀ n, n ∈ (dir.erase name).keys ↔ n ≠ name ∧ n ∈ dir.keys := fun n => by
      rw [← AList.mem_keys, AList.mem_erase, AList.mem_keys]
    have hact : act m (.removeFile d name) (w.set d (some dir)) =
        some ((), w.set d (some (dir.erase name))) := by
      simp only [act, Files.folder_set_self, if_pos hname, Files.set_set]
    obtain ⟨dir', he, hdir'⟩ := ih hnodup fun n hn =>
      (hmem n).2 ⟨fun heq => hnotin (heq ▸ hn), hnames n hn⟩
    refine ⟨dir', by rw [forEach_cons, exec_bind _ (exec_last hact), he], fun n => ?_⟩
    rw [hdir', hmem, List.mem_cons]
    tauto

theorem exec_removeDirAll (h : (w.folder d).isSome) :
    (removeDirAll d).exec (act m) w = (some (), w.set d none) := by
  obtain ⟨dir, hdir⟩ := Option.isSome_iff_exists.1 h
  have hnodup : (m.order dir.keys).Nodup := (m.order_perm _).nodup_iff.2 dir.keys_nodup
  obtain ⟨dir', he, hkeys⟩ := exec_forEach_removeFile (m := m) (w := w) (d := d) hnodup
    fun n hn => (m.order_perm _).mem_iff.1 hn
  rw [Files.set_eq_self hdir] at he
  have hempty : dir'.keys = [] := List.eq_nil_iff_forall_not_mem.2 fun n hn =>
    ((hkeys n).1 hn).2 ((m.order_perm _).mem_iff.2 ((hkeys n).1 hn).1)
  have hlist : act m (.readDir d) w = some (some (m.order dir.keys), w) := by
    simp only [act, hdir, Option.map_some]
  have hremove : act m (.removeDir d) (w.set d (some dir')) = some ((), w.set d none) := by
    simp only [act, Files.folder_set_self, if_pos hempty, Files.set_set]
  unfold removeDirAll
  rw [exec_perform _ hlist]
  dsimp only
  rw [exec_bind _ he, exec_last hremove]

theorem exec_removeDirAll_missing (h : w.folder d = none) :
    (removeDirAll d).exec (act m) w = (none, w) := by
  have hlist : act m (.readDir d) w = some (none, w) := by simp only [act, h, Option.map_none]
  unfold removeDirAll
  rw [exec_perform _ hlist]
  rfl

theorem Files.processing_of_copied (hne : w.copied m ≠ []) :
    ((w.moved m).folder .processing).isSome := by
  rcases hdir : (w.moved m).folder .processing with _ | dir
  · refine absurd ?_ hne
    rw [Files.copied, Files.contents, Files.listing, hdir]
    rfl
  · rfl

/-- What is moved and copied. -/
theorem exec_collectPending (h : (w.folder .pending).isSome) :
    (collectPending m).exec (act m) w = (some (), w.collected m) := by
  obtain ⟨dir, hdir⟩ := Option.isSome_iff_exists.1 h
  have hlist : act m (.readDir .pending) w = some (some (w.listing m .pending), w) := by
    simp only [act, hdir, Option.map_some, Files.listing, Option.getD_some]
  unfold collectPending
  rw [exec_perform _ hlist]
  dsimp only
  rw [exec_bind _ (exec_forEach_movePending Files.nodup_listing fun n hn => Files.mem_listing.1 hn)]
  change (fs (.readDir .processing) >>= _ : SweepProg δ Unit).exec (act m) (w.moved m) = _
  have hread : (readFiles .processing ((((w.moved m).folder .processing).map fun dir =>
      m.order dir.keys).getD [])).exec (act m) (w.moved m) = (some (w.copied m), w.moved m) :=
    exec_readFiles fun n hn => Files.mem_listing.1 hn
  rw [exec_perform _ rfl, exec_bind _ hread]
  unfold Files.collected
  simp only [List.isEmpty_iff]
  split_ifs with hnil
  · rfl
  · rw [exec_perform _ rfl, exec_bind _ (exec_persisterWrite rfl (w.copied m)), exec_removeDirAll]
    rw [Files.written, Files.folder_set_of_ne (by decide)]
    exact Files.processing_of_copied hnil

theorem exec_collectPending_missing (h : w.folder .pending = none) :
    (collectPending m).exec (act m) w = (some (), w) := by
  have hlist : act m (.readDir .pending) w = some (none, w) := by simp only [act, h, Option.map_none]
  unfold collectPending
  rw [exec_perform _ hlist]
  rfl

theorem exec_nothingToMigrate : ∃ nothing, nothingToMigrate.exec (act m) w = (some nothing, w) ∧
    (nothing = true ↔ ∀ d, w.folder d = none) := by
  unfold nothingToMigrate
  rw [exec_perform _ rfl]
  rcases hp : w.folder .pending with _ | dir
  swap
  · exact ⟨false, rfl, iff_of_false Bool.false_ne_true fun h => nomatch hp.symm.trans (h _)⟩
  dsimp only [Option.isSome_none]
  rw [if_neg Bool.false_ne_true, exec_perform _ rfl]
  rcases hq : w.folder .processing with _ | dir
  swap
  · exact ⟨false, rfl, iff_of_false Bool.false_ne_true fun h => nomatch hq.symm.trans (h _)⟩
  dsimp only [Option.isSome_none]
  rw [if_neg Bool.false_ne_true, exec_perform _ rfl]
  rcases hs : w.folder .spendables with _ | dir
  · refine ⟨true, rfl, iff_of_true rfl fun d => ?_⟩
    cases d <;> assumption
  · exact ⟨false, rfl, iff_of_false Bool.false_ne_true fun h => nomatch hs.symm.trans (h _)⟩

/-! ## Tracking -/

variable (m) in
/-- The descriptors of files of `spendable_outputs`, if all of these consist of descriptors. -/
def Files.decoded (w : Files δ) : List String → Option (List δ)
  | [] => some []
  | name :: names =>
    ((w.file .spendables name).bind m.reader.readAll).bind fun outputs =>
      (w.decoded names).map (outputs ++ ·)

theorem exec_readOutputs {names : List String}
    (h : ∀ name ∈ names, (w.file .spendables name).isSome) :
    (readOutputs m names).exec (act m) w = (w.decoded m names, w) := by
  induction names with
  | nil => rfl
  | cons name names ih =>
    obtain ⟨hname, hnames⟩ := List.forall_mem_cons.1 h
    obtain ⟨bytes, hbytes⟩ := Option.isSome_iff_exists.1 hname
    have hread : act m (.read .spendables name) w = some (bytes, w) := by
      simp only [act, hbytes, Option.map_some]
    rw [readOutputs, exec_perform _ hread, Files.decoded, hbytes, Option.bind_some]
    rcases m.reader.readAll bytes with _ | outputs
    · rfl
    · dsimp only [Option.bind_some]
      have hrest := ih hnames
      rcases hdec : w.decoded m names with _ | rest <;> rw [hdec] at hrest
      · exact exec_bind_refused _ hrest
      · rw [exec_bind _ hrest]
        rfl

/-- Every file of `spendable_outputs` consists of descriptors, and these are what is read. -/
theorem Files.decoded_eq_some_iff {names : List String}
    (h : ∀ name ∈ names, (w.file .spendables name).isSome) :
    (w.decoded m names).isSome ↔ ∀ name ∈ names, ∀ bytes, w.file .spendables name = some bytes →
      (m.reader.readAll bytes).isSome := by
  induction names with
  | nil => simp [decoded]
  | cons name names ih =>
    obtain ⟨hname, hnames⟩ := List.forall_mem_cons.1 h
    obtain ⟨bytes, hbytes⟩ := Option.isSome_iff_exists.1 hname
    rw [List.forall_mem_cons, ← ih hnames, decoded, hbytes]
    rcases hall : m.reader.readAll bytes with _ | outputs <;> simp [hall]

theorem Files.mem_of_decoded {names : List String} {outputs : List δ}
    (h : w.decoded m names = some outputs) (x : δ) : x ∈ outputs ↔
      ∃ name ∈ names, ∃ bytes ds, w.file .spendables name = some bytes ∧
        m.reader.readAll bytes = some ds ∧ x ∈ ds := by
  induction names generalizing outputs with
  | nil =>
    obtain rfl := Option.some.inj h
    simp
  | cons name names ih =>
    obtain ⟨ds, hds, hmap⟩ := Option.bind_eq_some_iff.1 h
    obtain ⟨rest, hrest, rfl⟩ := Option.map_eq_some_iff.1 hmap
    obtain ⟨bytes, hbytes, hds⟩ := Option.bind_eq_some_iff.1 hds
    rw [List.mem_append, ih hrest, List.exists_mem_cons_iff]
    refine or_congr_left ⟨fun hx => ⟨bytes, ds, hbytes, hds, hx⟩, ?_⟩
    rintro ⟨bytes', ds', hbytes', hds', hx⟩
    obtain rfl := Option.some.inj (hbytes.symm.trans hbytes')
    obtain rfl := Option.some.inj (hds.symm.trans hds')
    exact hx

theorem Files.decoded_listing_isSome : (w.decoded m (w.listing m .spendables)).isSome ↔
    ∀ name bytes, w.file .spendables name = some bytes → (m.reader.readAll bytes).isSome := by
  rw [Files.decoded_eq_some_iff fun n hn => Files.mem_listing.1 hn]
  exact ⟨fun h name bytes hb => h name (Files.mem_listing.2 (by rw [hb]; rfl)) bytes hb,
    fun h name _ => h name⟩

theorem Files.mem_of_decoded_listing {outputs : List δ}
    (h : w.decoded m (w.listing m .spendables) = some outputs) (x : δ) : x ∈ outputs ↔
      ∃ name bytes ds, w.file .spendables name = some bytes ∧ m.reader.readAll bytes = some ds ∧
        x ∈ ds := by
  rw [Files.mem_of_decoded h]
  refine exists_congr fun name => ⟨fun ⟨_, h⟩ => h, fun h => ⟨?_, h⟩⟩
  obtain ⟨bytes, _, hb, -⟩ := h
  exact Files.mem_listing.2 (by rw [hb]; rfl)

/-- The directories are removed where both are there, and nothing else changes. -/
theorem removeDirs_iff (Q : List δ → Prop) :
    (∃ w', (removeDirAll .spendables >>= fun _ => removeDirAll .pending : SweepProg δ Unit).exec
        (act m) w = (some (), w') ∧ Q w'.tracked) ↔
      (w.folder .pending).isSome ∧ (w.folder .spendables).isSome ∧ Q w.tracked := by
  rcases hs : w.folder .spendables with _ | spendables
  · rw [exec_bind_refused _ (exec_removeDirAll_missing hs)]
    exact iff_of_false (fun ⟨_, h, _⟩ => nomatch h) fun ⟨_, h, _⟩ => nomatch h
  rw [exec_bind _ (exec_removeDirAll (by rw [hs]; rfl))]
  rcases hp : w.folder .pending with _ | pending
  · rw [exec_removeDirAll_missing (by rw [Files.folder_set_of_ne (by decide), hp])]
    exact iff_of_false (fun ⟨_, h, _⟩ => nomatch h) fun ⟨h, _⟩ => nomatch h
  rw [exec_removeDirAll (by rw [Files.folder_set_of_ne (by decide), hp]; rfl)]
  constructor
  · rintro ⟨_, ⟨⟩, h⟩
    exact ⟨rfl, rfl, h⟩
  · exact fun ⟨_, _, h⟩ => ⟨_, rfl, h⟩

/-- The part that tracks ends from files with both directories to remove, if every file of
`spendable_outputs` consists of descriptors, and then it has tracked them. -/
theorem trackOutputs_iff (P : δ → Prop) :
    (∃ w', (trackOutputs m).exec (act m) w = (some (), w') ∧ ∀ x, P x → x ∈ w'.tracked) ↔
      ((w.folder .pending).isSome ∧ (w.folder .spendables).isSome ∧
        ∀ name bytes, w.file .spendables name = some bytes → (m.reader.readAll bytes).isSome) ∧
      ∀ x, P x → x ∈ w.tracked ∨ ∃ name bytes ds, w.file .spendables name = some bytes ∧
        m.reader.readAll bytes = some ds ∧ x ∈ ds := by
  have hread : (readOutputs m (w.listing m .spendables)).exec (act m) w = (w.decoded m _, w) :=
    exec_readOutputs fun n hn => Files.mem_listing.1 hn
  rw [← Files.decoded_listing_isSome]
  unfold trackOutputs
  rw [exec_perform _ rfl]
  change (∃ w', ((readOutputs m (w.listing m .spendables)) >>= _ : SweepProg δ Unit).exec (act m) w =
    (some (), w') ∧ _) ↔ _
  rcases hdec : w.decoded m (w.listing m .spendables) with _ | outputs <;> rw [hdec] at hread
  · rw [exec_bind_refused _ hread]
    exact iff_of_false (fun ⟨_, h, _⟩ => nomatch h) fun ⟨⟨_, _, h⟩, _⟩ => nomatch h
  rw [exec_bind _ hread, exec_perform _ rfl]
  simp only [← Files.mem_of_decoded_listing hdec, ← List.mem_append]
  refine (removeDirs_iff fun tracked => ∀ x, P x → x ∈ tracked).trans ?_
  exact ⟨fun ⟨hp, hs, h⟩ => ⟨⟨hp, hs, rfl⟩, h⟩, fun ⟨⟨hp, hs, _⟩, h⟩ => ⟨hp, hs, h⟩⟩

/-! ## The run -/

variable (m) in
/-- A text that the run decodes: the copy, or a file of `spendable_outputs`. -/
def Files.Read (w : Files δ) (bytes : List UInt8) : Prop :=
  bytes = w.copied m ∨ ∃ name, w.file .spendables name = some bytes

variable (m) in
/-- The files from which a run ends: there is no directory; or the pending one exists, there is one to
remove after it has been read, and what is read consists of descriptors. -/
def Files.Ready (w : Files δ) : Prop :=
  (∀ d, w.folder d = none) ∨
    (w.folder .pending).isSome ∧ ((w.folder .spendables).isSome ∨ w.copied m ≠ []) ∧
      ∀ bytes, w.Read m bytes → (m.reader.readAll bytes).isSome

variable (m) in
/-- The descriptor is tracked, or in a text that the run decodes. -/
def Files.Retains (w : Files δ) (x : δ) : Prop :=
  x ∈ w.tracked ∨ ∃ bytes ds, w.Read m bytes ∧ m.reader.readAll bytes = some ds ∧ x ∈ ds

theorem Files.copied_of_missing (h : ∀ d, w.folder d = none) : w.copied m = [] := by
  have hmoved : w.moved m = w := by
    rw [moved, listing, h]
    rfl
  rw [copied, hmoved, contents, listing, h]
  rfl

theorem Files.retains_of_missing (h : ∀ d, w.folder d = none) (x : δ) :
    w.Retains m x ↔ x ∈ w.tracked := by
  refine or_iff_left ?_
  rintro ⟨bytes, ds, rfl | ⟨name, hb⟩, hds, hx⟩
  · rw [Files.copied_of_missing h] at hds
    obtain rfl := Option.some.inj hds
    exact List.not_mem_nil hx
  · rw [Files.file_of_none (h _)] at hb
    cases hb

/-- An empty copy is not written. -/
theorem Files.read_iff_collected {bytes : List UInt8} (hb : bytes ≠ []) :
    w.Read m bytes ↔ ∃ name, (w.collected m).file .spendables name = some bytes := by
  rw [Files.file_spendables_collected, Files.Read, or_comm]
  exact or_congr_right ⟨fun h => ⟨h ▸ hb, h⟩, fun h => h.2⟩

theorem Files.parsed_collected : (∀ name bytes, (w.collected m).file .spendables name = some bytes →
    (m.reader.readAll bytes).isSome) ↔ ∀ bytes, w.Read m bytes → (m.reader.readAll bytes).isSome := by
  rw [forall_comm]
  refine forall_congr' fun bytes => ?_
  by_cases hb : bytes = []
  · subst hb
    exact iff_of_true (fun _ _ => rfl) fun _ => rfl
  · rw [Files.read_iff_collected hb, forall_exists_index]

/-- There is nothing in an empty copy. -/
theorem Files.held_collected (x : δ) :
    (∃ name bytes ds, (w.collected m).file .spendables name = some bytes ∧
      m.reader.readAll bytes = some ds ∧ x ∈ ds) ↔
        ∃ bytes ds, w.Read m bytes ∧ m.reader.readAll bytes = some ds ∧ x ∈ ds := by
  have hne : ∀ {bytes ds}, m.reader.readAll bytes = some ds → x ∈ ds → bytes ≠ [] := by
    rintro _ ds hds hx rfl
    obtain rfl := Option.some.inj hds
    exact List.not_mem_nil hx
  constructor
  · rintro ⟨name, bytes, ds, hb, hds, hx⟩
    exact ⟨bytes, ds, (Files.read_iff_collected (hne hds hx)).2 ⟨name, hb⟩, hds, hx⟩
  · rintro ⟨bytes, ds, hb, hds, hx⟩
    obtain ⟨name, hb⟩ := (Files.read_iff_collected (hne hds hx)).1 hb
    exact ⟨name, bytes, ds, hb, hds, hx⟩

/-- A run ends just from ready files, and then what it has tracked are the descriptors that these
retain. -/
theorem migrate_iff (P : δ → Prop) :
    (∃ w', (migrateDeprecatedSpendableOutputs m).exec (act m) w = (some (), w') ∧
      ∀ x, P x → x ∈ w'.tracked) ↔ w.Ready m ∧ ∀ x, P x → w.Retains m x := by
  obtain ⟨nothing, hexec, hnothing⟩ := exec_nothingToMigrate (m := m) (w := w)
  unfold migrateDeprecatedSpendableOutputs
  rw [exec_bind _ hexec]
  split_ifs with hn
  · have hnone := hnothing.1 hn
    simp only [Files.retains_of_missing hnone]
    rw [and_iff_right (show w.Ready m from Or.inl hnone)]
    constructor
    · rintro ⟨_, ⟨⟩, h⟩
      exact h
    · exact fun h => ⟨w, rfl, h⟩
  have hsome : ¬∀ d, w.folder d = none := fun h => hn (hnothing.2 h)
  rw [Files.Ready, or_iff_right hsome]
  rcases hp : w.folder .pending with _ | pending
  · rw [exec_bind _ (exec_collectPending_missing hp), trackOutputs_iff, hp]
    exact iff_of_false (fun ⟨⟨h, _⟩, _⟩ => nomatch h) fun ⟨⟨h, _⟩, _⟩ => nomatch h
  have hpending : (w.folder .pending).isSome := by rw [hp]; rfl
  rw [exec_bind _ (exec_collectPending hpending), trackOutputs_iff, Files.pending_collected, hp,
    Files.spendables_collected, Files.tracked_collected, Files.parsed_collected]
  simp only [Files.held_collected]
  rfl

end Sweep

end LightningRelay

import LightningRelay.Sweep.Run

/-!
# The migration after a crash

A run of the migration may stop after any operation, and the next start runs it again.

No crash loses a descriptor of files that consist of descriptors and are not moved over one another
(`kept_of_crash`).  But a crash within the persister's write leaves a beginning of a descriptor in
`spendable_outputs`, and a run removes `spendable_outputs` before `pending_spendable_outputs`; a run that
finds the one or the latter without the former aborts.  So the run after a crash ends, with every
descriptor tracked, just when it does not begin there and nothing was lost (`resumed_iff`).
-/

set_option autoImplicit false

namespace LightningRelay

open Async

namespace Sweep

section

variable {δ : Type}

namespace Files

/-- A file that is still to be copied into `spendable_outputs`. -/
def Stock (w : Files δ) (name : String) (bytes : List UInt8) : Prop :=
  name.utf8ByteSize = 64 ∧ w.file .pending name = some bytes ∨ w.file .processing name = some bytes

/-- The contents of a file that the migration has to read. -/
def Content (w : Files δ) (bytes : List UInt8) : Prop :=
  ∃ name, w.Stock name bytes ∨ w.file .spendables name = some bytes

/-- No file is moved over another one. -/
def Distinct (w : Files δ) : Prop :=
  ∀ name, name.utf8ByteSize = 64 → (w.file .pending name).isSome → w.file .processing name = none

variable (m : Machine δ)

/-- The descriptor `x` is in a file. -/
def Held (w : Files δ) (x : δ) : Prop :=
  ∃ bytes ds, w.Content bytes ∧ m.reader.readAll bytes = some ds ∧ x ∈ ds

/-- Every file that is to be copied consists of descriptors. -/
def WellFormed (w : Files δ) : Prop :=
  ∀ name bytes, w.Stock name bytes → (m.reader.readAll bytes).isSome

end Files

variable (m : Machine δ)

/-- What a run that begins in `w₀` keeps: no descriptor is lost. -/
structure Kept (w₀ w : Files δ) : Prop where
  wellFormed : w.WellFormed m
  distinct : w.Distinct
  known : ∀ x, x ∈ w₀.tracked ∨ w₀.Held m x → x ∈ w.tracked ∨ w.Held m x

variable {m} {w₀ w w' : Files δ} {name : String}

theorem Kept.of_contents (h : Kept m w₀ w) (htracked : w.tracked ⊆ w'.tracked)
    (hdistinct : w'.Distinct) (hback : ∀ name bytes, w'.Stock name bytes → w.Stock name bytes)
    (hforth : ∀ bytes ds, w.Content bytes → m.reader.readAll bytes = some ds →
      ∀ x ∈ ds, x ∈ w'.tracked ∨ w'.Held m x) : Kept m w₀ w' where
  wellFormed name bytes hb := h.wellFormed name bytes (hback name bytes hb)
  distinct := hdistinct
  known x hx := by
    rcases h.known x hx with ht | ⟨bytes, ds, hb, hds, hx⟩
    · exact Or.inl (htracked ht)
    · exact hforth bytes ds hb hds x hx

theorem Kept.of_stock (h : Kept m w₀ w) (htracked : w.tracked ⊆ w'.tracked)
    (hdistinct : w'.Distinct) (hstock : ∀ name bytes, w'.Stock name bytes ↔ w.Stock name bytes)
    (hspendables : ∀ name bytes, w.file .spendables name = some bytes →
      w'.file .spendables name = some bytes) : Kept m w₀ w' := by
  refine h.of_contents htracked hdistinct (fun n b => (hstock n b).1) ?_
  rintro b ds ⟨n, hb⟩ hds x hx
  exact Or.inr ⟨b, ds, ⟨n, hb.imp (hstock n b).2 (hspendables n b)⟩, hds, hx⟩

theorem Kept.of_same (h : Kept m w₀ w) (hfile : ∀ d name, w'.file d name = w.file d name)
    (htracked : w.tracked ⊆ w'.tracked) : Kept m w₀ w' := by
  refine h.of_stock htracked ?_ (fun n b => ?_) fun n b hb => (hfile _ n).trans hb
  · intro n
    rw [hfile, hfile]
    exact h.distinct n
  · simp only [Files.Stock, hfile]

/-- In the stock, a file does not lose its contents by being moved. -/
theorem Kept.move (h : Kept m w₀ w) (hname : (w.file .pending name).isSome) :
    Kept m w₀ (w.move name) := by
  by_cases hsize : name.utf8ByteSize = 64
  swap
  · rw [Files.move, if_neg hsize]
    exact h
  have hgone : (w.move name).file .pending name = none := Files.pending_move_self hsize
  have hfree := h.distinct name hsize hname
  have hprocessing : ∀ n, (w.move name).file .processing n =
      if n = name ∧ n.utf8ByteSize = 64 then w.file .pending n else w.file .processing n :=
    fun n => Files.processing_move hname
  refine h.of_stock (by rw [Files.tracked_move]; exact List.Subset.refl _) ?_ (fun n b => ?_)
    fun n b hb => ?_
  · intro n hn hsome
    by_cases hne : n = name
    · rw [hne, hgone] at hsome
      cases hsome
    · rw [Files.pending_move_of_ne hne] at hsome
      rw [hprocessing, if_neg fun hboth => hne hboth.1]
      exact h.distinct n hn hsome
  · by_cases hne : n = name
    · subst hne
      simp [Files.Stock, hgone, hprocessing, hfree, hsize]
    · simp [Files.Stock, Files.pending_move_of_ne hne, hprocessing, hne]
  · rw [Files.file, Files.spendables_move]
    exact hb

/-- A new file of `spendable_outputs`, whatever it holds. -/
theorem Kept.insert {dir : Dir} (h : Kept m w₀ w) (hdir : (w.folder .spendables).getD ∅ = dir)
    (hname : name ∉ dir) (bytes : List UInt8) :
    Kept m w₀ (w.set .spendables (some (dir.insert name bytes))) := by
  refine h.of_stock (List.Subset.refl _) ?_ (fun n b => ?_) fun n b hb => ?_
  · intro n
    rw [Files.file_set_of_ne (by decide), Files.file_set_of_ne (by decide)]
    exact h.distinct n
  · simp only [Files.Stock, Files.file_set_of_ne (by decide : Folder.pending ≠ .spendables),
      Files.file_set_of_ne (by decide : Folder.processing ≠ .spendables)]
  · obtain ⟨dir', hdir', hb⟩ := Option.bind_eq_some_iff.1 hb
    rw [hdir', Option.getD_some] at hdir
    subst hdir
    have hne : n ≠ name := by
      rintro rfl
      exact hname (AList.lookup_isSome.1 (by rw [hb]; rfl))
    rw [Files.file_set_self, Option.bind_some, AList.lookup_insert_ne hne]
    exact hb

/-! ## Removing a directory -/

/-- Some files of `d` are gone, and nothing else has changed. -/
structure Shrunk (d : Folder) (w w' : Files δ) : Prop where
  folder : ∀ d', d' ≠ d → w'.folder d' = w.folder d'
  tracked : w'.tracked = w.tracked
  sub : ∀ name bytes, w'.file d name = some bytes → w.file d name = some bytes

theorem Shrunk.file {d d' : Folder} (h : Shrunk d w w') (hd : d' ≠ d) (name : String) :
    w'.file d' name = w.file d' name := by
  rw [Files.file, h.folder d' hd, Files.file]

theorem Shrunk.set {d : Folder} {dir : Option Dir} (h : Shrunk d w w')
    (hdir : ∀ name bytes, (dir.bind fun dir => dir.lookup name) = some bytes →
      w'.file d name = some bytes) : Shrunk d w (w'.set d dir) where
  folder d' hd := (Files.folder_set_of_ne hd).trans (h.folder d' hd)
  tracked := h.tracked
  sub name bytes hb := by
    rw [Files.file_set_self] at hb
    exact h.sub name bytes (hdir name bytes hb)

/-- The processing files are removed when their descriptors are in `spendable_outputs`. -/
theorem Kept.shrunk_processing (h : Kept m w₀ w)
    (hmoved : ∀ name, name.utf8ByteSize = 64 → w.file .pending name = none)
    (hcopied : ∀ name bytes ds, w.file .processing name = some bytes →
      m.reader.readAll bytes = some ds → ∀ x ∈ ds, ∃ name bytes ds,
        w.file .spendables name = some bytes ∧ m.reader.readAll bytes = some ds ∧ x ∈ ds)
    (hs : Shrunk .processing w w') : Kept m w₀ w' := by
  have hp := hs.file (by decide : Folder.pending ≠ .processing)
  have hsp := hs.file (by decide : Folder.spendables ≠ .processing)
  refine h.of_contents (hs.tracked ▸ List.Subset.refl _) ?_ ?_ ?_
  · intro n hn hsome
    rw [hp, hmoved n hn] at hsome
    cases hsome
  · rintro n b (⟨hn, hb⟩ | hb)
    · exact Or.inl ⟨hn, hp n ▸ hb⟩
    · exact Or.inr (hs.sub n b hb)
  · rintro b ds ⟨n, (⟨hn, hb⟩ | hb) | hb⟩ hds x hx
    · rw [hmoved n hn] at hb
      cases hb
    · obtain ⟨n', b', ds', hb', hds', hx'⟩ := hcopied n b ds hb hds x hx
      exact Or.inr ⟨b', ds', ⟨n', Or.inr (hsp n' ▸ hb')⟩, hds', hx'⟩
    · exact Or.inr ⟨b, ds, ⟨n, Or.inr (hsp n ▸ hb)⟩, hds, hx⟩

/-- The files of `spendable_outputs` are removed when their descriptors are tracked. -/
theorem Kept.shrunk_spendables (h : Kept m w₀ w)
    (htracked : ∀ name bytes ds, w.file .spendables name = some bytes →
      m.reader.readAll bytes = some ds → ds ⊆ w.tracked)
    (hs : Shrunk .spendables w w') : Kept m w₀ w' := by
  have hstock : ∀ n b, w'.Stock n b ↔ w.Stock n b := by
    intro n b
    simp only [Files.Stock, hs.file (by decide : Folder.pending ≠ .spendables),
      hs.file (by decide : Folder.processing ≠ .spendables)]
  refine h.of_contents (hs.tracked ▸ List.Subset.refl _) ?_ (fun n b => (hstock n b).1) ?_
  · intro n
    rw [hs.file (by decide), hs.file (by decide)]
    exact h.distinct n
  · rintro b ds ⟨n, hb | hb⟩ hds x hx
    · exact Or.inr ⟨b, ds, ⟨n, Or.inl ((hstock n b).2 hb)⟩, hds, hx⟩
    · exact Or.inl (hs.tracked ▸ htracked n b ds hb hds hx)

/-- The pending files are removed when none of them is to be moved. -/
theorem Kept.shrunk_pending (h : Kept m w₀ w)
    (hmoved : ∀ name, name.utf8ByteSize = 64 → w.file .pending name = none)
    (hs : Shrunk .pending w w') : Kept m w₀ w' := by
  have hq := hs.file (by decide : Folder.processing ≠ .pending)
  have hnone : ∀ n, n.utf8ByteSize = 64 → w'.file .pending n = none := by
    intro n hn
    rcases hb : w'.file .pending n with _ | b
    · rfl
    · exact absurd ((hmoved n hn).symm.trans (hs.sub n b hb)) nofun
  refine h.of_stock (hs.tracked ▸ List.Subset.refl _) ?_ (fun n b => ?_)
    fun n b hb => (hs.file (by decide) n).trans hb
  · intro n hn hsome
    rw [hnone n hn] at hsome
    cases hsome
  · refine or_congr (and_congr_right fun hn => ?_) (by rw [hq])
    rw [hnone n hn, hmoved n hn]

/-! ## Crashes -/

open Prog

/-- No crash of the program breaks `I`. -/
abbrev Survives {α : Type} (m : Machine δ) (I : Files δ → Prop) (Q : α → Files δ → Prop)
    (p : SweepProg δ α) (w : Files δ) : Prop := Secures (act m) False I Q p w

section

variable {I : Files δ → Prop}

theorem survives_removeDirAll {d : Folder} (hI : ∀ w', Shrunk d w w' → I w') :
    Survives m I (fun _ w' => Shrunk d w w') (removeDirAll d) w := by
  have hself : Shrunk d w w := ⟨fun _ _ => rfl, rfl, fun _ _ h => h⟩
  refine secures_step (hI w hself) rfl ?_
  rcases hdir : w.folder d with _ | dir
  · exact secures_refused (hI w hself) rfl id
  · dsimp only [Option.map_some]
    refine (secures_forEach (J := fun _ w' => Shrunk d w w') (fun _ w' h => hI w' h) ?_ _ w
      hself).bind ?_
    · intro name names w₁ hw₁
      refine ⟨hI w₁ hw₁, nofun, fun r w₂ hact => ?_⟩
      rcases hdir₁ : w₁.folder d with _ | dir₁
      · simp [act, hdir₁] at hact
      simp only [act, hdir₁, Option.ite_none_right_eq_some, Option.some.injEq, Prod.mk.injEq] at hact
      obtain ⟨-, -, rfl⟩ := hact
      have hnext : Shrunk d w (w₁.set d (some (dir₁.erase name))) := by
        refine hw₁.set fun n b hb => ?_
        rw [Files.file_of_folder hdir₁]
        by_cases hn : n = name
        · subst hn
          simp at hb
        · simpa [AList.lookup_erase_ne hn] using hb
      exact ⟨hI _ hnext, hnext⟩
    · intro _ w₁ _ hw₁
      refine ⟨hI w₁ hw₁, nofun, fun r w₂ hact => ?_⟩
      rcases hdir₁ : w₁.folder d with _ | dir₁
      · simp [act, hdir₁] at hact
      simp only [act, hdir₁, Option.ite_none_right_eq_some, Option.some.injEq, Prod.mk.injEq] at hact
      obtain ⟨-, -, rfl⟩ := hact
      have hnext : Shrunk d w (w₁.set d none) := hw₁.set fun n b hb => by cases hb
      exact ⟨hI _ hnext, hnext⟩

theorem survives_readFiles {d : Folder} (hI : I w) : ∀ names : List String,
    (∀ name ∈ names, (w.file d name).isSome) →
      Survives m I (fun out w' => w' = w ∧ out = (names.filterMap (w.file d)).flatten)
        (readFiles d names) w := by
  intro names
  induction names with
  | nil => exact fun _ => ⟨hI, rfl, rfl⟩
  | cons name names ih =>
    intro h
    obtain ⟨hname, hnames⟩ := List.forall_mem_cons.1 h
    obtain ⟨bytes, hbytes⟩ := Option.isSome_iff_exists.1 hname
    have hread : act m (.read d name) w = some (bytes, w) := by simp [act, hbytes]
    refine secures_step hI hread ((ih hnames).bind ?_)
    rintro rest _ _ ⟨rfl, rfl⟩
    exact ⟨hI, rfl, by simp [hbytes]⟩

theorem survives_readOutputs (hI : I w) : ∀ names : List String,
    (∀ name ∈ names, (w.file .spendables name).isSome) →
      Survives m I (fun out w' => w' = w ∧ ∀ name ∈ names, ∀ bytes ds,
        w.file .spendables name = some bytes → m.reader.readAll bytes = some ds → ds ⊆ out)
        (readOutputs m names) w := by
  intro names
  induction names with
  | nil => exact fun _ => ⟨hI, rfl, fun _ hn => absurd hn List.not_mem_nil⟩
  | cons name names ih =>
    intro h
    obtain ⟨hname, hnames⟩ := List.forall_mem_cons.1 h
    obtain ⟨bytes, hbytes⟩ := Option.isSome_iff_exists.1 hname
    have hread : act m (.read .spendables name) w = some (bytes, w) := by simp [act, hbytes]
    refine secures_step hI hread ?_
    rcases hds : m.reader.readAll bytes with _ | ds
    · exact secures_refused hI rfl id
    refine (ih hnames).bind ?_
    rintro rest _ _ ⟨rfl, hrest⟩
    refine ⟨hI, rfl, fun n hn b es hb hes => ?_⟩
    rcases List.mem_cons.1 hn with rfl | hn
    · obtain rfl := Option.some.inj (hbytes.symm.trans hb)
      obtain rfl := Option.some.inj (hds.symm.trans hes)
      exact List.subset_append_left _ _
    · exact List.subset_append_of_subset_right _ (hrest n hn b es hb hes)

end

/-- The directories are made without a change to a file. -/
theorem Kept.createDirAll (h : Kept m w₀ w) (d : Folder) :
    Kept m w₀ (w.set d (some ((w.folder d).getD ∅))) :=
  h.of_same (fun _ _ => Files.file_createDirAll) (List.Subset.refl _)

/-- The files while pending ones are moved; the pending files to move are among `names`. -/
structure Moving (m : Machine δ) (w₀ : Files δ) (names : List String) (w : Files δ) : Prop where
  kept : Kept m w₀ w
  nodup : names.Nodup
  listed : ∀ name ∈ names, (w.file .pending name).isSome
  left : ∀ name, name.utf8ByteSize = 64 → (w.file .pending name).isSome → name ∈ names

theorem Moving.move {names : List String} (h : Moving m w₀ (name :: names) w) :
    Moving m w₀ names (w.move name) := by
  obtain ⟨hname, hnames⟩ := List.forall_mem_cons.1 h.listed
  obtain ⟨hnotin, hnodup⟩ := List.nodup_cons.1 h.nodup
  refine ⟨h.kept.move hname, hnodup, fun n hn => ?_, fun n hn hsome => ?_⟩
  · have hne : n ≠ name := fun heq => hnotin (heq ▸ hn)
    rw [Files.pending_move_of_ne hne]
    exact hnames n hn
  · by_cases hne : n = name
    · subst hne
      rw [Files.pending_move_self hn] at hsome
      cases hsome
    · rw [Files.pending_move_of_ne hne] at hsome
      exact (List.mem_cons.1 (h.left n hn hsome)).resolve_left hne

theorem survives_movePending {names : List String} (h : Moving m w₀ (name :: names) w) :
    Survives m (Kept m w₀) (fun _ w' => Moving m w₀ names w') (movePending name) w := by
  have hname := h.listed name List.mem_cons_self
  unfold movePending
  split_ifs with hsize
  · refine secures_step h.kept rfl ?_
    exact secures_last (h.kept.createDirAll _) (act_move hsize hname) h.move.kept h.move
  · refine secures_pure h.kept ?_
    have hmove : w.move name = w := if_neg hsize
    exact hmove ▸ h.move

/-- A crash within the persister's write leaves a new file with some of the bytes. -/
theorem survives_persisterWrite {dir : Dir} (hdir : (w.folder .spendables).getD ∅ = dir)
    (bytes : List UInt8) (h : Kept m w₀ w) :
    Survives m (Kept m w₀) (fun _ w' => w' = w.written m bytes)
      (persisterWrite m (m.key dir) bytes) w := by
  have hmake : act m (.createDirAll .spendables) w = some ((), w.set .spendables (some dir)) := by
    rw [← hdir]
    rfl
  have hmade : Kept m w₀ (w.set .spendables (some dir)) := hdir ▸ h.createDirAll .spendables
  have htmp : ∀ bytes, Kept m w₀ (w.set .spendables
      (some (dir.insert (tmpName (m.key dir) m.counter) bytes))) :=
    fun bytes => h.insert hdir (m.tmp_fresh dir) bytes
  refine secures_step h hmake (secures_step hmade act_create ?_)
  refine (secures_forEach (J := fun rest w' => ∃ done, done ++ rest = bytes ∧
    w' = w.set .spendables (some (dir.insert (tmpName (m.key dir) m.counter) done))) ?_ ?_ bytes _
    ⟨[], rfl, rfl⟩).bind ?_
  · rintro _ _ ⟨done, -, rfl⟩
    exact htmp done
  · rintro byte rest _ ⟨done, hdone, rfl⟩
    refine secures_last (htmp done) (act_append done byte) (htmp _) ⟨done ++ [byte], ?_, rfl⟩
    rw [List.append_assoc]
    exact hdone
  · rintro _ _ _ ⟨done, hdone, rfl⟩
    obtain rfl : done = bytes := by rw [← hdone, List.append_nil]
    have hwritten : Kept m w₀ (w.written m done) := by
      rw [Files.written, hdir]
      exact h.insert hdir (m.key_fresh dir) done
    exact secures_last (htmp done) (act_rename_tmp hdir done) hwritten rfl

/-- After the write every descriptor of a processing file is in `spendable_outputs`. -/
theorem Kept.copied (h : Kept m w₀ w) {n : String} {bytes : List UInt8} {ds : List δ} {x : δ}
    (hb : (w.written m (w.contents m .processing)).file .processing n = some bytes)
    (hds : m.reader.readAll bytes = some ds) (hx : x ∈ ds) :
    ∃ name bytes ds, (w.written m (w.contents m .processing)).file .spendables name = some bytes ∧
      m.reader.readAll bytes = some ds ∧ x ∈ ds := by
  obtain ⟨all, hall, hsub⟩ := Files.readAll_contents (m := m) (d := .processing) (w := w)
    fun n b hb => h.wellFormed n b (Or.inr hb)
  rw [Files.written, Files.file_set_of_ne (by decide)] at hb
  refine ⟨m.key ((w.folder .spendables).getD ∅), _, all, ?_, hall, hsub n bytes ds hb hds hx⟩
  rw [Files.written, Files.file_set_self, Option.bind_some, AList.lookup_insert]

theorem survives_collectPending (hkept : Kept m w₀ w₀) :
    Survives m (Kept m w₀) (fun _ w => ∀ n, n.utf8ByteSize = 64 → w.file .pending n = none)
      (collectPending m) w₀ := by
  refine secures_step hkept rfl ?_
  rcases hp : w₀.folder .pending with _ | pending
  · exact ⟨hkept, fun _ _ => Files.file_of_none hp⟩
  have hstart : Moving m w₀ (m.order pending.keys) w₀ := by
    have hlisting : w₀.listing m .pending = m.order pending.keys := by
      rw [Files.listing, hp]
      rfl
    rw [← hlisting]
    exact ⟨hkept, Files.nodup_listing, fun n hn => Files.mem_listing.1 hn,
      fun n _ hn => Files.mem_listing.2 hn⟩
  dsimp only [Option.map_some]
  refine (secures_forEach (J := Moving m w₀) (fun _ _ h => h.kept)
    (fun _ _ _ h => survives_movePending h) _ _ hstart).bind ?_
  intro _ w hw hmoving
  have hmoved : ∀ n, n.utf8ByteSize = 64 → w.file .pending n = none := by
    intro n hn
    rw [← Option.not_isSome_iff_eq_none]
    exact fun hsome => List.not_mem_nil (hmoving.left n hn hsome)
  refine secures_step hw rfl ?_
  refine (survives_readFiles hw _ fun name hname => Files.mem_listing.1 hname).bind ?_
  rintro out w' - ⟨hw', hout⟩
  rw [hw', show out = w.contents m .processing from hout]
  split_ifs
  · exact ⟨hw, hmoved⟩
  refine secures_step hw rfl ((survives_persisterWrite rfl _ hw).bind ?_)
  rintro _ w₁ hw₁ rfl
  have hmoved₁ : ∀ n, n.utf8ByteSize = 64 →
      (w.written m (w.contents m .processing)).file .pending n = none := by
    intro n hn
    rw [Files.written, Files.file_set_of_ne (by decide)]
    exact hmoved n hn
  refine (survives_removeDirAll fun w' hs => hw₁.shrunk_processing hmoved₁
    (fun n b ds hb hds x hx => hw.copied hb hds hx) hs).mono ?_
  intro _ w' _ hs n hn
  rw [hs.file (by decide)]
  exact hmoved₁ n hn

theorem survives_trackOutputs (hw : Kept m w₀ w)
    (hmoved : ∀ n, n.utf8ByteSize = 64 → w.file .pending n = none) :
    Survives m (Kept m w₀) (fun _ _ => True) (trackOutputs m) w := by
  refine secures_step hw rfl ?_
  refine (survives_readOutputs hw _ fun n hn => Files.mem_listing.1 hn).bind ?_
  rintro outputs w' - ⟨hw', hread⟩
  rw [hw']
  have htracked : Kept m w₀ { w with tracked := w.tracked ++ outputs } :=
    hw.of_same (fun _ _ => rfl) (List.subset_append_left _ _)
  refine secures_step hw rfl ?_
  refine (survives_removeDirAll fun w' hs => htracked.shrunk_spendables (fun n b ds hb hds => ?_)
    hs).bind ?_
  · exact List.subset_append_of_subset_right _
      (hread n (Files.mem_listing.2 (by rw [show w.file .spendables n = some b from hb]; rfl)) b ds hb
        hds)
  intro _ w₂ hw₂ hs₂
  refine (survives_removeDirAll fun w' hs => hw₂.shrunk_pending (fun n hn => ?_) hs).mono
    fun _ _ _ _ => trivial
  rw [hs₂.file (by decide)]
  exact hmoved n hn

/-- No crash loses a descriptor of files that consist of descriptors and are not moved over one
another. -/
theorem kept_of_crash (hwf : w₀.WellFormed m) (hdistinct : w₀.Distinct) (n : ℕ) :
    Kept m w₀ (crashAt (act m) n (migrateDeprecatedSpendableOutputs m) w₀) := by
  have hkept : Kept m w₀ w₀ := ⟨hwf, hdistinct, fun _ h => h⟩
  have hnothing : Survives m (Kept m w₀) (fun _ w => w = w₀) nothingToMigrate w₀ := by
    refine secures_step hkept rfl ?_
    split_ifs
    · exact ⟨hkept, rfl⟩
    refine secures_step hkept rfl ?_
    split_ifs
    · exact ⟨hkept, rfl⟩
    · exact secures_step hkept rfl ⟨hkept, rfl⟩
  have hrun : Survives m (Kept m w₀) (fun _ _ => True) (migrateDeprecatedSpendableOutputs m) w₀ := by
    refine hnothing.bind ?_
    rintro nothing w - rfl
    split_ifs
    · exact ⟨hkept, trivial⟩
    · exact (survives_collectPending hkept).bind fun _ w hw hmoved => survives_trackOutputs hw hmoved
  exact hrun.crashAt n

/-- What is held is read, if no file is moved over another one. -/
theorem Kept.retains (h : Kept m w₀ w) {x : δ} (hx : x ∈ w₀.tracked ∨ w₀.Held m x) :
    w.Retains m x := by
  have hstock : ∀ n b, (w.moved m).file .processing n = some b ↔ w.Stock n b := by
    intro n b
    rw [Files.processing_moved, Files.Stock]
    split_ifs with hmove
    · rw [h.distinct n hmove.1 hmove.2]
      simp [hmove.1]
    · rw [or_iff_right]
      rintro ⟨hn, hb⟩
      exact hmove ⟨hn, by rw [hb]; rfl⟩
  obtain ⟨all, hall, hsub⟩ := Files.readAll_contents (m := m) (d := .processing) (w := w.moved m)
    fun n b hb => h.wellFormed n b ((hstock n b).1 hb)
  rcases h.known x hx with ht | ⟨bytes, ds, ⟨n, hb | hb⟩, hds, hx⟩
  · exact Or.inl ht
  · exact Or.inr ⟨w.copied m, all, Or.inl rfl, hall, hsub n bytes ds ((hstock n bytes).2 hb) hds hx⟩
  · exact Or.inr ⟨bytes, ds, Or.inr ⟨n, hb⟩, hds, hx⟩

end

open Prog

/-- For every content of the directories and every crash point: the next run ends, with every descriptor
tracked, just when it begins from ready files and nothing was lost; and nothing is lost if the files to
copy consist of descriptors and none is moved over another one. -/
theorem resumed_iff {δ : Type} (m : Machine δ) (w : Files δ) (n : ℕ) :
    ((∃ w', (migrateDeprecatedSpendableOutputs m).exec (act m)
        (crashAt (act m) n (migrateDeprecatedSpendableOutputs m) w) = (some (), w') ∧
      ∀ x, w.Held m x → x ∈ w'.tracked) ↔
      (crashAt (act m) n (migrateDeprecatedSpendableOutputs m) w).Ready m ∧
        ∀ x, w.Held m x →
          (crashAt (act m) n (migrateDeprecatedSpendableOutputs m) w).Retains m x) ∧
    (w.WellFormed m → w.Distinct → ∀ x, w.Held m x →
      (crashAt (act m) n (migrateDeprecatedSpendableOutputs m) w).Retains m x) :=
  ⟨migrate_iff fun x => w.Held m x, fun hwf hdistinct _ hx =>
    (kept_of_crash hwf hdistinct n).retains (Or.inr hx)⟩

/-! ## A pending file -/

/-- Descriptors of two bytes. -/
def twoBytes : Codec.Reader UInt8 (UInt8 × UInt8) where
  read
    | a :: b :: s => some ((a, b), s)
    | _ => none
  shrinks {s d rest} h := by
    rcases s with _ | ⟨a, _ | ⟨b, s⟩⟩
    · cases h
    · cases h
    · obtain ⟨-, rfl⟩ := Prod.mk.inj (Option.some.inj h)
      simp only [List.length_cons]
      omega
  stable {s d rest} more h := by
    rcases s with _ | ⟨a, _ | ⟨b, s⟩⟩
    · cases h
    · cases h
    · obtain ⟨rfl, rfl⟩ := Prod.mk.inj (Option.some.inj h)
      rfl

/-- A name that is longer than all names of a directory. -/
theorem not_mem_of_longer {dir : Dir} {name : String}
    (h : (dir.keys.flatMap String.toList).length < name.toList.length) : name ∉ dir := by
  intro hmem
  have hle : name.toList.length ≤ (dir.keys.flatMap String.toList).length := by
    rw [List.flatMap_def]
    exact (List.sublist_flatten_of_mem (List.mem_map_of_mem (AList.mem_keys.1 hmem))).length_le
  omega

/-- A machine that lists a directory as it is, with a key that is longer than every name. -/
def devnetMachine : Machine (UInt8 × UInt8) where
  reader := twoBytes
  order names := names
  order_perm _ := .refl _
  key dir := String.ofList ('k' :: dir.keys.flatMap String.toList)
  counter := 0
  key_fresh dir := not_mem_of_longer (by
    rw [String.toList_ofList, List.length_cons]
    omega)
  tmp_fresh dir := not_mem_of_longer (by
    simp only [tmpName, toString, String.toList_append, String.toList_ofList, List.length_append,
      List.length_cons]
    omega)

/-- One pending file with one descriptor. -/
def devnetPending : Files (UInt8 × UInt8) where
  folder
    | .pending => some (AList.singleton (String.ofList (List.replicate 64 'a')) [7, 8])
    | .processing => none
    | .spendables => none
  tracked := []

/-- The run on this file, crashed after `n` operations. -/
def devnetCrash (n : ℕ) : Files (UInt8 × UInt8) :=
  crashAt (act devnetMachine) n (migrateDeprecatedSpendableOutputs devnetMachine) devnetPending

set_option maxRecDepth 100000 in
/-- The run ends.  But a crash after its 21st operation leaves the pending directory without
`spendable_outputs`, and the next run aborts when it removes the latter; and a crash after its 10th
operation, within the persister's write, leaves one byte in `spendable_outputs`, and the next run aborts
when it decodes that. -/
theorem devnet_migration_aborts :
    ((migrateDeprecatedSpendableOutputs devnetMachine).exec (act devnetMachine) devnetPending).1 =
        some () ∧
      (((devnetCrash 21).folder .pending).isSome = true ∧ (devnetCrash 21).folder .spendables = none ∧
        ((migrateDeprecatedSpendableOutputs devnetMachine).exec (act devnetMachine)
          (devnetCrash 21)).1 = none) ∧
      (devnetCrash 10).file .spendables "k.0.tmp" = some [7] ∧
        ((migrateDeprecatedSpendableOutputs devnetMachine).exec (act devnetMachine)
          (devnetCrash 10)).1 = none := by
  decide +kernel

/-- A property of all files of a directory, by its entries. -/
theorem all_files {δ : Type} {w : Files δ} {d : Folder} {p : List UInt8 → Bool}
    (h : ((w.folder d).all fun dir => dir.entries.all fun e => p e.2) = true) {name : String}
    {bytes : List UInt8} (hb : w.file d name = some bytes) : p bytes = true := by
  obtain ⟨dir, hdir, hb⟩ := Option.bind_eq_some_iff.1 hb
  rw [hdir] at h
  exact List.all_eq_true.1 h ⟨name, bytes⟩ (AList.mem_lookup_iff.1 hb)

set_option maxRecDepth 100000 in
/-- A crash after the copy into `spendable_outputs`. -/
theorem resumed_iff_copied :
    ∃ w', (migrateDeprecatedSpendableOutputs devnetMachine).exec (act devnetMachine)
        (devnetCrash 12) = (some (), w') ∧
      ∀ x, devnetPending.Held devnetMachine x → x ∈ w'.tracked := by
  obtain ⟨hiff, hretains⟩ := resumed_iff devnetMachine devnetPending 12
  refine hiff.2 ⟨Or.inr ⟨by decide +kernel, Or.inl (by decide +kernel), ?_⟩, hretains ?_ ?_⟩
  · rintro bytes (rfl | ⟨name, hb⟩)
    · decide +kernel
    · exact all_files (p := fun b => (twoBytes.readAll b).isSome) (by decide +kernel) hb
  · rintro name bytes (⟨-, hb⟩ | hb)
    · exact all_files (p := fun b => (twoBytes.readAll b).isSome) (by decide +kernel) hb
    · cases hb
  · exact fun _ _ _ => rfl

end Sweep

end LightningRelay

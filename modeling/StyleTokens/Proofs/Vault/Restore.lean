/-
What a restore gives back.

* `BackupEntry.Recoverable` — an entry whose copy is intact, and whose file can be written,
  be it there or not; `BackupEntry.Restorable` — one whose file is there;
* `run_restore_ok` — a single file is given the bytes of its copy;
* `run_restoreAll` — so are all files of a manifest, if no file is where another one or a
  copy is, nor on the way of another one;
* `run_restoreLatest` — so are those of the manifest on the disk;
* `makeDirectories_of_restore` — a file whose directories cannot be made is not restored.

Design notes: the files of a snapshot are told from their copies by where their paths
lead.  A world that refuses nothing lets all of them be written.
-/
import StyleTokens.Proofs.Vault.Reading
import StyleTokens.Proofs.World.Growth

namespace StyleTokens

variable {world : FallibleHost} {disk later : Disk} {root : Path} {entry : BackupEntry}
  {entries : List BackupEntry} {data : ByteArray} {places news : Place → Prop}
  {may : Request → Prop}

/-! ### One file -/

/-- An entry whose copy is intact, and whose file is there. -/
structure BackupEntry.Restorable (root : Path) (disk : Disk) (entry : BackupEntry)
    (data : ByteArray) : Prop where
  copy : disk.read ⟨entry.backup⟩ = .ok data
  intact : entry.sha256 = Sha256.hex data
  original : disk.isFile (root.under ⟨entry.file⟩) = true

/-- It stays so while other places than that of the copy are written. -/
theorem BackupEntry.Restorable.touched (h : entry.Restorable root disk data)
    (htouched : disk.Touched later places)
    (hn : ∀ place, disk.destination ⟨entry.backup⟩ = some place → ¬ places place) :
    entry.Restorable root later data where
  copy := htouched.read h.copy hn
  intact := h.intact
  original := htouched.toDevelops.isFile h.original

/-- An entry whose copy is intact, and whose file can be written, with the directories on
its way if they are missing. -/
structure BackupEntry.Recoverable (root : Path) (disk : Disk) (entry : BackupEntry)
    (data : ByteArray) : Prop where
  copy : disk.read ⟨entry.backup⟩ = .ok data
  intact : entry.sha256 = Sha256.hex data
  accepts : Disk.Accepts (root.under ⟨entry.file⟩)
  ends : Disk.EndsWithName (root.under ⟨entry.file⟩).stretches
  admits : disk.Admits (root.under ⟨entry.file⟩)

theorem BackupEntry.Restorable.recoverable (h : entry.Restorable root disk data)
    (hs : disk.Solid disk.here) : entry.Recoverable root disk data := by
  obtain ⟨place, old, hf⟩ := Disk.isFile_iff.1 h.original
  obtain ⟨haccepts, hwalk⟩ := Disk.find_eq_ok_iff.1 hf
  exact {
    copy := h.copy
    intact := h.intact
    accepts := haccepts
    ends := hwalk.endsWithName (hs.origin _) (by simp)
    admits := .of_isFile hs h.original }

/-- It stays so while other files are written, and none on its way. -/
theorem BackupEntry.Recoverable.grown (h : entry.Recoverable root disk data)
    (hg : disk.Grown later places news)
    (hcopy : ∀ place, disk.destination ⟨entry.backup⟩ = some place → ¬ places place)
    (hspared : ∀ place, places place → ¬ disk.Crosses (root.under ⟨entry.file⟩) place)
    (hfree : ∀ place, disk.destination (root.under ⟨entry.file⟩) = some place →
      ¬ places place ∧ ¬ news place) :
    entry.Recoverable root later data where
  copy := hg.read h.copy hcopy
  intact := h.intact
  accepts := h.accepts
  ends := h.ends
  admits := h.admits.grown hg hspared hfree

theorem BackupEntry.restore_asks (hreads : ∀ request : Request, request.Reads → may request)
    (h : MayPut may (root.under ⟨entry.file⟩)) :
    (entry.restore root).Obeys may (fun _ => True) fun _ => True := by
  have hwrite (data : ByteArray) : (Action.writeFile (root.under ⟨entry.file⟩) data).Obeys may
      (fun _ => True) fun _ => True :=
    Action.writeFile_asks h
  have hrefuse (fault : Fault) : (throw fault : Action Unit).Obeys may (fun _ => True)
      fun _ => True :=
    .throw trivial
  unfold restore
  refine .bind (.ofIo_any (.request (.read ⟨entry.backup⟩) (hreads _ trivial))) fun data _ => ?_
  split
  · exact .bind (hrefuse _) fun _ _ => hwrite data
  · exact hwrite data

/-- What a single file brings to the disk: itself, and directories on its way. -/
theorem BackupEntry.restore_grown (hs : world.disk.Solid world.disk.here) (root : Path)
    (entry : BackupEntry) :
    world.disk.Grown (world.run (entry.restore root).attempt).2.disk
      (world.disk.destination (root.under ⟨entry.file⟩) = some ·)
      (world.disk.OnTheWay (root.under ⟨entry.file⟩)) :=
  Script.Obeys.grown (restore_asks (fun _ h => h.grows) (mayPut_grows (fun _ h => h) fun _ h => h))
    hs (.refl _ _ _)

/-- **A single file is given the bytes of its copy.** -/
theorem BackupEntry.run_restore_ok (hgrants : world.Grants)
    (hs : world.disk.Solid world.disk.here) (h : entry.Recoverable root world.disk data)
    (hown : world.disk.Bypasses (root.under ⟨entry.file⟩) (root.under ⟨entry.file⟩)) :
    ∃ after, world.run (entry.restore root).attempt = (.ok (), after) ∧ after.Grants ∧
      after.disk.read (root.under ⟨entry.file⟩) = .ok data := by
  obtain ⟨middle, hread, hmiddle, hgrants⟩ := hgrants.run_read h.copy
  have hs' : middle.disk.Solid middle.disk.here := hmiddle ▸ hs
  have hadmits : middle.disk.Admits (root.under ⟨entry.file⟩) := hmiddle ▸ h.admits
  obtain ⟨after, hwrite, hgrants⟩ := hgrants.run_writeFile_of_admits hs' h.accepts h.ends hadmits
    (hmiddle ▸ hown) data
  refine ⟨after, ?_, hgrants, ?_⟩
  · have hintact : ¬ ((entry.sha256 ≠ "" && Sha256.hex data ≠ entry.sha256) = true) := by
      simp [h.intact]
    rw [restore, FallibleHost.run_action_bind, hread]
    dsimp only
    rw [if_neg hintact]
    exact hwrite
  · exact (Action.run_writeFile_ok hs' hwrite).resolve_right fun h => h.2 hadmits.keeps

/-- A file is restored only where the directories on its way can be made. -/
theorem BackupEntry.makeDirectories_of_restore {after : FallibleHost} {parent : Path}
    (hparent : (root.under ⟨entry.file⟩).parent? = some parent)
    (h : world.run (entry.restore root).attempt = (.ok (), after)) :
    (world.disk.makeDirectories parent).1 = .ok () := by
  unfold restore at h
  obtain ⟨data, middle, hread, h⟩ := FallibleHost.run_action_bind_ok h
  have hreply : world.reply (.read ⟨entry.backup⟩) = (.ok data, middle) :=
    FallibleHost.run_ofIo_ok hread
  have hmiddle : middle.disk = world.disk := FallibleHost.disk_eq_of_reply hreply trivial
  dsimp only at h
  split at h
  · obtain ⟨_, _, hthrow, -⟩ := FallibleHost.run_action_bind_ok h
    cases hthrow
  · unfold Action.writeFile at h
    rw [hparent] at h
    obtain ⟨_, _, hmake, -⟩ := FallibleHost.run_action_bind_ok h
    rw [← hmiddle]
    exact FallibleHost.reply_makeDirectories_ok
      (congrArg Prod.fst (FallibleHost.run_ofIo_ok hmake))

/-! ### All files -/

/-- Entries that are restorable, and whose files are neither where the file of another
entry is nor where a copy is. -/
structure Manifest.Restorable (root : Path) (disk : Disk) (entries : List BackupEntry) : Prop where
  each : ∀ entry ∈ entries, ∃ data, entry.Restorable root disk data
  files : entries.Pairwise fun entry other =>
    disk.Apart (root.under ⟨entry.file⟩) (root.under ⟨other.file⟩)
  copies : ∀ entry ∈ entries, ∀ other ∈ entries,
    disk.Apart (root.under ⟨entry.file⟩) ⟨other.backup⟩

/-- Entries that are recoverable, and whose files are not on the way of each other either. -/
structure Manifest.Recoverable (root : Path) (disk : Disk) (entries : List BackupEntry) :
    Prop where
  each : ∀ entry ∈ entries, ∃ data, entry.Recoverable root disk data
  files : entries.Pairwise fun entry other =>
    disk.Apart (root.under ⟨entry.file⟩) (root.under ⟨other.file⟩)
  copies : ∀ entry ∈ entries, ∀ other ∈ entries,
    disk.Apart (root.under ⟨entry.file⟩) ⟨other.backup⟩
  bypasses : ∀ entry ∈ entries, ∀ other ∈ entries,
    disk.Bypasses (root.under ⟨entry.file⟩) (root.under ⟨other.file⟩)

theorem Manifest.Restorable.recoverable (h : Restorable root disk entries)
    (hs : disk.Solid disk.here) : Recoverable root disk entries where
  each entry he := (h.each entry he).imp fun _ hentry => hentry.recoverable hs
  files := h.files
  copies := h.copies
  bypasses entry he other ho := by
    obtain ⟨_, hentry⟩ := h.each entry he
    obtain ⟨_, hother⟩ := h.each other ho
    exact Disk.bypasses_of_isFile hs hentry.original hother.original

namespace Manifest

/-- When the file of the first entry is written, the others stay recoverable. -/
theorem Recoverable.of_head (h : Recoverable root disk (entry :: entries))
    (hg : disk.Grown later (disk.destination (root.under ⟨entry.file⟩) = some ·)
      (disk.OnTheWay (root.under ⟨entry.file⟩)))
    {other : BackupEntry} (ho : other ∈ entries) (hother : other.Recoverable root disk data) :
    other.Recoverable root later data := by
  have hmem := List.mem_cons_of_mem entry ho
  have hhead : entry ∈ entry :: entries := List.mem_cons_self
  obtain ⟨_, hentry⟩ := h.each entry hhead
  refine hother.grown hg ?_ ?_ ?_
  · exact fun place hcopy hfile => h.copies entry hhead other hmem place hfile hcopy
  · exact fun place hplace => h.bypasses entry hhead other hmem place hplace
  · refine fun place hp => ⟨fun hplace => (List.pairwise_cons.1 h.files).1 other ho place hplace hp,
      fun hnew => ?_⟩
    rcases Disk.onTheWay_cases hentry.ends hnew with hplace | hcross
    · exact (List.pairwise_cons.1 h.files).1 other ho place hplace hp
    · exact h.bypasses other hmem entry hhead place hp hcross

theorem Recoverable.tail (h : Recoverable root disk (entry :: entries))
    (hg : disk.Grown later (disk.destination (root.under ⟨entry.file⟩) = some ·)
      (disk.OnTheWay (root.under ⟨entry.file⟩))) : Recoverable root later entries where
  each other ho := (h.each other (List.mem_cons_of_mem _ ho)).imp fun _ => h.of_head hg ho
  files := (List.pairwise_cons.1 h.files).2.imp fun hapart => hapart.congr hg.destination_eq
  copies first hf second hs := (h.copies first (List.mem_cons_of_mem _ hf) second
    (List.mem_cons_of_mem _ hs)).congr hg.destination_eq
  bypasses first hf second hs := (h.bypasses first (List.mem_cons_of_mem _ hf) second
    (List.mem_cons_of_mem _ hs)).develops hg.toDevelops

/-- The places of the files of entries. -/
def FilePlace (root : Path) (disk : Disk) (entries : List BackupEntry) (place : Place) :
    Prop :=
  ∃ entry ∈ entries, disk.destination (root.under ⟨entry.file⟩) = some place

theorem run_restoreAll_cons {after : FallibleHost}
    (h : world.run (entry.restore root).attempt = (.ok (), after)) :
    world.run (restoreAll root (entry :: entries)) =
      (⟨entry.file, none⟩ :: (after.run (restoreAll root entries)).1,
        (after.run (restoreAll root entries)).2) := by
  rw [restoreAll, FallibleHost.run_bind, h]
  dsimp only
  rw [FallibleHost.run_bind]
  rfl

/-- Where no outcome tells of an error, the first entry was restored. -/
theorem restore_of_restoreAll
    (h : ∀ outcome ∈ (world.run (restoreAll root (entry :: entries))).1, outcome.error = none) :
    ∃ after, world.run (entry.restore root).attempt = (.ok (), after) := by
  rcases hrun : world.run (entry.restore root).attempt with ⟨fault | -, after⟩
  · rw [restoreAll, FallibleHost.run_bind, hrun] at h
    dsimp only at h
    rw [FallibleHost.run_bind] at h
    exact absurd (h _ List.mem_cons_self) (by simp)
  · exact ⟨after, rfl⟩

/-- **All files are given the bytes of their copies.** -/
theorem run_restoreAll (hgrants : world.Grants) (hs : world.disk.Solid world.disk.here)
    (h : Recoverable root world.disk entries) :
    let restored := world.run (restoreAll root entries)
    restored.1 = entries.map (fun entry => ⟨entry.file, none⟩) ∧
      world.disk.Touched restored.2.disk (FilePlace root world.disk entries) ∧
      ∀ entry ∈ entries, ∀ data, entry.Recoverable root world.disk data →
        restored.2.disk.read (root.under ⟨entry.file⟩) = .ok data := by
  -- entry by entry; the entries that are left stay recoverable when one is written
  induction entries generalizing world with
  | nil => exact ⟨rfl, .refl _ _, fun _ he => nomatch he⟩
  | cons entry entries ih =>
    have hhead : entry ∈ entry :: entries := List.mem_cons_self
    obtain ⟨data, hentry⟩ := h.each entry hhead
    obtain ⟨after, hrun, hgrants, hread⟩ := BackupEntry.run_restore_ok hgrants hs hentry
      (h.bypasses entry hhead entry hhead)
    have hgrown := entry.restore_grown hs root
    rw [hrun] at hgrown
    rw [run_restoreAll_cons hrun]
    dsimp only at hgrown ⊢
    obtain ⟨houtcomes, hothers, hreads⟩ := ih hgrants (hgrown.solid_here hs) (h.tail hgrown)
    have hplaces (place : Place) (hp : FilePlace root after.disk entries place) :
        ∃ other ∈ entries, world.disk.destination (root.under ⟨other.file⟩) = some place := by
      obtain ⟨other, ho, hplace⟩ := hp
      exact ⟨other, ho, hgrown.destination_eq _ ▸ hplace⟩
    refine ⟨by rw [houtcomes]; rfl, ?_, fun other ho bytes hother => ?_⟩
    · refine (hgrown.toTouched.mono fun place hp => ?_).trans (hothers.mono fun place hp => ?_)
      · exact ⟨entry, hhead, hp⟩
      · obtain ⟨other, ho, hplace⟩ := hplaces place hp
        exact ⟨other, List.mem_cons_of_mem _ ho, hplace⟩
    · rcases List.mem_cons.1 ho with rfl | ho
      · -- the others lie elsewhere
        obtain rfl : data = bytes := Except.ok.inj (hentry.copy.symm.trans hother.copy)
        refine hothers.read hread fun place hp hp' => ?_
        obtain ⟨other, ho, hplace⟩ := hplaces place hp'
        exact (List.pairwise_cons.1 h.files).1 other ho place
          (hgrown.destination_eq _ ▸ hp) hplace
      · exact hreads other ho bytes (h.of_head hgrown ho hother)

end Manifest

theorem RestoreResult.allRestored_iff (result : RestoreResult) :
    result.allRestored = true ↔ ∀ outcome ∈ result.outcomes, outcome.error = none := by
  have hall := List.length_filter_eq_length_iff (p := (·.restored)) (l := result.outcomes)
  simp only [RestoreOutcome.restored, Option.isNone_iff_eq_none] at hall
  rw [← hall, allRestored, decide_eq_true_iff, failedCount, Nat.sub_eq_zero_iff_le]
  exact ⟨Nat.le_antisymm (List.length_filter_le _ _), fun h => Nat.le_of_eq h.symm⟩

/-- The manifest on the disk is loaded, and its entries are restored. -/
theorem Vault.run_restoreLatest_eq {vault : Vault} {manifest : Manifest} (hgrants : world.Grants)
    (hread : world.disk.read vault.manifestPath = .ok manifest.toJson.pretty.toUTF8)
    (hsized : manifest.Sized) :
    ∃ loaded : FallibleHost, loaded.disk = world.disk ∧ loaded.Grants ∧
      let restored := loaded.run (Manifest.restoreAll ⟨manifest.sourceRoot⟩ manifest.entries)
      world.run vault.restoreLatest.attempt =
        (.ok ⟨manifest.sourceRoot, restored.1, (restored.2.reply .now).1⟩,
          (restored.2.reply .now).2) := by
  obtain ⟨loaded, hload, hloaded, hgrants⟩ := Manifest.run_load hgrants hsized hread
  refine ⟨loaded, hloaded, hgrants, ?_⟩
  rw [restoreLatest, FallibleHost.run_action_bind, hload]
  dsimp only
  rw [FallibleHost.run_action_lift, Manifest.restore, FallibleHost.run_bind,
    FallibleHost.run_bind]
  rfl

/-- **The files of the manifest on the disk are given the bytes of their copies.** -/
theorem Vault.run_restoreLatest {vault : Vault} {manifest : Manifest} (hgrants : world.Grants)
    (hs : world.disk.Solid world.disk.here)
    (hread : world.disk.read vault.manifestPath = .ok manifest.toJson.pretty.toUTF8)
    (hsized : manifest.Sized)
    (h : Manifest.Recoverable ⟨manifest.sourceRoot⟩ world.disk manifest.entries) :
    ∃ result after, world.run vault.restoreLatest.attempt = (.ok result, after) ∧
      result.outcomes = manifest.entries.map (fun entry => ⟨entry.file, none⟩) ∧
      result.allRestored = true ∧
      world.disk.Touched after.disk
        (Manifest.FilePlace ⟨manifest.sourceRoot⟩ world.disk manifest.entries) ∧
      ∀ entry ∈ manifest.entries, ∀ data,
        entry.Recoverable ⟨manifest.sourceRoot⟩ world.disk data →
          after.disk.read (Path.under ⟨manifest.sourceRoot⟩ ⟨entry.file⟩) = .ok data := by
  obtain ⟨loaded, hloaded, hgrants, hrun⟩ := run_restoreLatest_eq hgrants hread hsized
  rw [← hloaded] at hs h ⊢
  obtain ⟨houtcomes, htouched, hreads⟩ := Manifest.run_restoreAll hgrants hs h
  dsimp only at hrun
  generalize loaded.run (Manifest.restoreAll ⟨manifest.sourceRoot⟩ manifest.entries) = restored
    at houtcomes htouched hreads hrun
  have hnow : Request.Reads .now := trivial
  rw [← restored.2.disk_reply_of_reads hnow] at htouched hreads
  refine ⟨_, _, hrun, houtcomes, (RestoreResult.allRestored_iff _).2 ?_, htouched, hreads⟩
  intro outcome ho
  rw [houtcomes] at ho
  obtain ⟨entry, -, rfl⟩ := List.mem_map.1 ho
  rfl

end StyleTokens

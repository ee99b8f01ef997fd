/-
What a snapshot accounts for.

Each file of a snapshot is copied or noted with the reason why it is not, and the manifest
on the disk tells which.  Copying a file may fail at every step, with the copy written or
not; then the file has no entry, whatever is in the vault.

* `Vault.Accounts` — the entries and the failures share the files between them;
  `run_copyAll_accounts` — so they do when files are copied one after another;
* `Vault.HasPristine` — an entry whose pristine copy is there; `run_copyAll_hasPristine` — so
  it is for all of them;
* `Vault.Accounted` — a manifest that accounts for files;
* `snapshot_accounts` — a snapshot accounts for its files, or its manifest could not be
  written, and it leaves the files alone.

Design notes: paths are apart when they lead to different places.  Paths that are different
as texts may lead to one place along a link, and then the copy of one file may be written in
place of another file (`Sample.linkedCopy_lost`).
-/
import StyleTokens.Proofs.Batch.Backup
import StyleTokens.Proofs.Vault.Pristine
import StyleTokens.Proofs.Vault.Reading

namespace StyleTokens

section

variable {world after : FallibleHost} {vault : Vault} {disk later : Disk} {path : Path}
  {data : ByteArray} {file : String} {files : List String} {entry : BackupEntry}
  {entries : List BackupEntry} {failures : List BackupFailure}

/-- What can be read can still be read later, whatever it is then. -/
theorem Disk.Develops.exists_read (h : disk.Develops later) (hr : disk.read path = .ok data) :
    ∃ bytes, later.read path = .ok bytes := by
  obtain ⟨place, entry, hf, rfl | ⟨-, device, rfl⟩⟩ := Disk.read_eq_ok_iff.1 hr
  · have hnow := h.isFile (Disk.isFile_iff.2 ⟨place, data, hf⟩)
    obtain ⟨place, bytes, hnow⟩ := Disk.isFile_iff.1 hnow
    exact ⟨bytes, Disk.read_eq_ok_iff.2 ⟨place, _, hnow, Or.inl rfl⟩⟩
  · have hat := h.device_iff.2 (Disk.find_eq_ok_iff.1 hf).2.entry?_at
    exact ⟨.empty, Disk.read_eq_ok_iff.2
      ⟨place, _, h.find hf hat (by simp), Or.inr ⟨rfl, device, rfl⟩⟩⟩

theorem FallibleHost.reply_isFile_true (h : (world.reply (.isFile path)).1 = true) :
    world.disk.isFile path = true := by
  rw [reply_of_not_refused (by simp [h, Request.refusal?])] at h
  exact h

namespace Vault

/-! ### Each file once -/

/-- Entries and failures that share files between them, each in the order of the files. -/
structure Accounts (files : List String) (entries : List BackupEntry)
    (failures : List BackupFailure) : Prop where
  perm : (entries.map (·.file) ++ failures.map (·.file)).Perm files
  entries : (entries.map (·.file)).Sublist files
  failures : (failures.map (·.file)).Sublist files

/-- A file that was copied comes to the entries. -/
theorem Accounts.copied (h : Accounts files entries failures) (entry : BackupEntry) :
    Accounts (entry.file :: files) (entry :: entries) failures where
  perm := h.perm.cons entry.file
  entries := h.entries.cons_cons entry.file
  failures := h.failures.cons entry.file

/-- One that was not comes to the failures. -/
theorem Accounts.failed (h : Accounts files entries failures) (failure : BackupFailure) :
    Accounts (failure.file :: files) entries (failure :: failures) where
  perm := List.perm_middle.trans (h.perm.cons failure.file)
  entries := h.entries.cons failure.file
  failures := h.failures.cons_cons failure.file

/-- **Each file is copied or noted**, whatever fails. -/
theorem run_copyAll_accounts (world : FallibleHost) (vault : Vault) (files : List String) :
    Accounts files (world.run (vault.copyAll files)).1.1 (world.run (vault.copyAll files)).1.2 := by
  induction files generalizing world with
  | nil => exact ⟨.nil, .slnil, .slnil⟩
  | cons file others ih =>
    have hnamed : Outcome (fun entry : BackupEntry => entry.file = file) (fun _ => True)
        (world.run (vault.snapshotOne file).attempt).1 :=
      (vault.snapshotOne_obeys world.disk file).result
    rw [run_copyAll_cons]
    generalize world.run (vault.snapshotOne file).attempt = first at hnamed ⊢
    obtain ⟨fault | entry, next⟩ := first
    · exact (ih next).failed ⟨file, fault.message⟩
    · obtain rfl : entry.file = file := hnamed
      exact (ih next).copied entry

/-- If no file is listed twice, the manifest covers those that it has no failure for. -/
theorem Accounts.covers_eq {manifest : Manifest}
    (h : Accounts files manifest.entries manifest.failures) (hnodup : files.Nodup)
    (hf : file ∈ files) : manifest.covers file = (manifest.failureFor? file).isNone := by
  obtain ⟨-, -, hone⟩ := List.nodup_append.1 (h.perm.nodup_iff.2 hnodup)
  have hcovers : manifest.covers file = true ↔ file ∈ manifest.entries.map (·.file) := by
    simp [Manifest.covers]
  have hclean : (manifest.failureFor? file).isNone = true ↔
      file ∉ manifest.failures.map (·.file) := by
    simp [Manifest.failureFor?]
  rw [Bool.eq_iff_iff, hcovers, hclean]
  constructor
  · exact fun hentry hfailure => hone _ hentry _ hfailure rfl
  · exact (List.mem_append.1 (h.perm.mem_iff.2 hf)).resolve_right

/-! ### Pristine copies -/

/-- An entry whose pristine copy is there. -/
def HasPristine (vault : Vault) (now : Disk) (entry : BackupEntry) : Prop :=
  entry.pristine = some (vault.pristinePath entry.file).plain ∧
    ∃ bytes, now.read (vault.pristinePath entry.file) = .ok bytes

theorem HasPristine.develops (h : vault.HasPristine disk entry) (hdev : disk.Develops later) :
    vault.HasPristine later entry :=
  ⟨h.1, h.2.elim fun _ hread => hdev.exists_read hread⟩

/-- A file that was copied has a pristine copy, be it a new one or an old one. -/
theorem run_snapshotOne_hasPristine (hs : world.disk.Solid world.disk.here)
    (h : world.run (vault.snapshotOne file).attempt = (.ok entry, after)) :
    vault.HasPristine after.disk entry := by
  obtain ⟨data, copied, asked, there, hsteps⟩ := exists_steps h
  obtain ⟨hdev, -⟩ := hsteps.asked hs
  obtain rfl := hsteps.entry_eq
  refine ⟨rfl, ?_⟩
  have hlast := hsteps.pristine
  split at hlast
  · exact ⟨data, run_writeCopy_ok (hdev.solid_here hs) hlast⟩
  · next hkeep =>
    -- it was not written because it was seen
    have hthere : there = true := by
      cases there
      · simp at hkeep
      · rfl
    have hlooked := hsteps.looked
    have hasked : asked.disk = copied.disk := FallibleHost.disk_eq_of_reply hlooked trivial
    have hfile : copied.disk.isFile (vault.pristinePath file) = true :=
      FallibleHost.reply_isFile_true (by rw [hlooked, hthere])
    obtain ⟨place, bytes, hfound⟩ := Disk.isFile_iff.1 hfile
    rw [← hlast, hasked]
    exact ⟨bytes, Disk.read_eq_ok_iff.2 ⟨place, _, hfound, Or.inl rfl⟩⟩

/-- **All entries have pristine copies.** -/
theorem run_copyAll_hasPristine (hs : world.disk.Solid world.disk.here) (vault : Vault)
    (files : List String) : ∀ entry ∈ (world.run (vault.copyAll files)).1.1,
      vault.HasPristine (world.run (vault.copyAll files)).2.disk entry := by
  induction files generalizing world with
  | nil => exact fun _ he => nomatch he
  | cons file others ih =>
    have htouched := Script.Obeys.touched (vault.snapshotOne_obeys world.disk file) hs
    have hfirst := @run_snapshotOne_hasPristine world
      (world.run (vault.snapshotOne file).attempt).2 vault file
    rw [run_copyAll_cons]
    generalize world.run (vault.snapshotOne file).attempt = first at htouched hfirst ⊢
    obtain ⟨copied, next⟩ := first
    have hs' := htouched.solid_here hs
    have hothers := ih hs'
    have hlast := (Script.Obeys.touched (vault.copyAll_obeys next.disk others) hs').toDevelops
    cases copied with
    | error fault => exact hothers
    | ok entry => exact List.forall_mem_cons.2 ⟨(hfirst hs rfl).develops hlast, hothers⟩

/-! ### The manifest -/

/-- A snapshot copies the files, and then its manifest is written or not. -/
theorem exists_run_snapshot (world : FallibleHost) (vault : Vault) (files : List String) :
    ∃ (manifest : Manifest) (next : FallibleHost),
      next.disk = (world.run (vault.copyAll files)).2.disk ∧
      manifest.entries = (world.run (vault.copyAll files)).1.1 ∧
      manifest.failures = (world.run (vault.copyAll files)).1.2 ∧
      world.run (vault.snapshot files).attempt =
        ((next.run (manifest.save vault.manifestPath).attempt).1.map fun _ => manifest,
          (next.run (manifest.save vault.manifestPath).attempt).2) := by
  have hnow : Request.Reads .now := trivial
  refine ⟨⟨Manifest.schema, ((world.run (vault.copyAll files)).2.reply .now).1,
      vault.sourceRoot.plain, (world.run (vault.copyAll files)).1.1,
      (world.run (vault.copyAll files)).1.2⟩, ((world.run (vault.copyAll files)).2.reply .now).2,
    FallibleHost.disk_reply_of_reads _ hnow, rfl, rfl, ?_⟩
  rw [snapshot, FallibleHost.run_action_bind, FallibleHost.run_action_lift]
  dsimp only
  rw [FallibleHost.run_action_bind, FallibleHost.run_action_lift, FallibleHost.run_request]
  dsimp only
  rw [FallibleHost.run_action_bind]
  generalize FallibleHost.run _ (Manifest.save _ vault.manifestPath).attempt = saved
  obtain ⟨fault | _, last⟩ := saved <;> rfl

/-- A manifest that accounts for files: it names each of them once, it is what the file of the
manifest describes, and its entries have intact copies and pristine ones. -/
structure Accounted (vault : Vault) (files : List String) (before now : Disk)
    (manifest : Manifest) : Prop extends Accounts files manifest.entries manifest.failures where
  covers_eq : ∀ file ∈ files, manifest.covers file = (manifest.failureFor? file).isNone
  onDisk : ∃ text, now.read vault.manifestPath = .ok text.toUTF8 ∧
    Manifest.parse text = .ok manifest
  copies : ∀ entry ∈ manifest.entries, ∃ data,
    before.BytesAt (vault.sourceRoot.under ⟨entry.file⟩) data ∧
      now.read ⟨entry.backup⟩ = .ok data ∧ entry.size = data.size ∧
      entry.sha256 = Sha256.hex data
  pristines : ∀ entry ∈ manifest.entries, ∃ path bytes,
    entry.pristine = some path ∧ now.read ⟨path⟩ = .ok bytes

/-- Files whose sizes 64 bits hold have entries whose sizes they hold. -/
theorem sized_of_copied {manifest : Manifest} {before now : Disk}
    (hsizes : ∀ file ∈ files, ∀ data,
      before.fileAt? (vault.sourceRoot.under ⟨file⟩) = some data → data.size < Count.bound)
    (hlisted : ∀ entry ∈ manifest.entries, entry.file ∈ files)
    (hcopied : ∀ entry ∈ manifest.entries, ∃ data, vault.Copied before now entry data) :
    manifest.Sized := by
  intro entry he
  obtain ⟨data, hentry⟩ := hcopied entry he
  rw [hentry.size_eq]
  obtain ⟨place, hd, hfile | ⟨rfl, -⟩⟩ := hentry.source
  · exact hsizes entry.file (hlisted entry he) data (Disk.fileAt?_eq_some_iff.2 ⟨place, hd, hfile⟩)
  · decide

section

variable (hnodup : files.Nodup) (hs : world.disk.Solid world.disk.here)
  (hapart : (vault.paths files).Pairwise world.disk.Apart)
  (hkeeps : world.disk.Keeps vault.manifestPath)
  (hsizes : ∀ file ∈ files, ∀ data,
    world.disk.fileAt? (vault.sourceRoot.under ⟨file⟩) = some data → data.size < Count.bound)

include hnodup hs hapart hkeeps hsizes

/-- The manifest of a snapshot that succeeded accounts for its files. -/
theorem accounted_of_run_snapshot {manifest : Manifest}
    (h : world.run (vault.snapshot files).attempt = (.ok manifest, after)) :
    vault.Accounted files world.disk after.disk manifest := by
  have hscattered := scattered_of_pairwise hapart
  have hcopied := run_snapshot_copied hs hscattered.separates hscattered.backup_manifest h
  have honDisk := run_snapshot_manifest hs hkeeps h
  have hdev := (Script.Obeys.touched (vault.snapshot_obeys world.disk files) hs).toDevelops
  obtain ⟨next, hnext, hentries, hfailures, hsave⟩ := run_snapshot_ok h
  have haccounts := run_copyAll_accounts world vault files
  have hpristine := run_copyAll_hasPristine hs vault files
  have hcopiedDev := (Script.Obeys.touched (vault.copyAll_obeys world.disk files) hs).toDevelops
  rw [← hentries, ← hfailures] at haccounts
  rw [← hnext] at hcopiedDev
  rw [← hentries, ← hnext] at hpristine
  rw [h] at hdev
  have hs' := hdev.solid_here hs
  have hsaved : next.disk.Touched (next.run (manifest.save vault.manifestPath).attempt).2.disk
      fun _ => True :=
    Script.Obeys.touched (Action.writeFile_obeys fun _ _ => trivial) (hcopiedDev.solid_here hs)
  rw [hsave] at hsaved
  have hsized := sized_of_copied hsizes
    (fun entry he => haccounts.entries.mem (List.mem_map_of_mem he)) hcopied
  exact {
    toAccounts := haccounts
    covers_eq := fun file hf => haccounts.covers_eq hnodup hf
    onDisk := ⟨_, honDisk, Manifest.parse_pretty hsized⟩
    copies := fun entry he => by
      obtain ⟨data, hentry⟩ := hcopied entry he
      refine ⟨data, hentry.source, ?_, hentry.size_eq, hentry.sha256_eq⟩
      rw [hentry.backup_eq]
      exact Disk.read_plain hs' hentry.copy
    pristines := fun entry he => by
      obtain ⟨hpath, bytes, hread⟩ := (hpristine entry he).develops hsaved.toDevelops
      exact ⟨_, bytes, hpath, Disk.read_plain hs' hread⟩ }

end

/-- **A snapshot accounts for its files**, or its manifest could not be written.  In no case
has one of the files changed. -/
theorem snapshot_accounts (world : FallibleHost) (vault : Vault) (files : List String)
    (hnodup : files.Nodup) (hs : world.disk.Solid world.disk.here)
    (hapart : (vault.paths files).Pairwise world.disk.Apart)
    (hkeeps : world.disk.Keeps vault.manifestPath)
    (hsizes : ∀ file ∈ files, ∀ data,
      world.disk.fileAt? (vault.sourceRoot.under ⟨file⟩) = some data → data.size < Count.bound) :
    let ended := world.run (vault.snapshot files).attempt
    (∀ manifest, ended.1 = .ok manifest →
      vault.Accounted files world.disk ended.2.disk manifest) ∧
    (∀ fault, ended.1 = .error fault → ∃ (manifest : Manifest) (next : FallibleHost),
      Accounts files manifest.entries manifest.failures ∧
        next.run (manifest.save vault.manifestPath).attempt = (.error fault, ended.2)) ∧
    ∀ file ∈ files, ended.2.disk.fileAt? (vault.sourceRoot.under ⟨file⟩) =
      world.disk.fileAt? (vault.sourceRoot.under ⟨file⟩) := by
  have hspared := (scattered_of_pairwise hapart).spared (.refl _)
  have htouched := Script.Obeys.touched (vault.snapshot_obeys world.disk files) hs
  intro ended
  refine ⟨fun manifest hok => ?_, fun fault hfault => ?_, fun file hf => ?_⟩
  · exact accounted_of_run_snapshot hnodup hs hapart hkeeps hsizes (Prod.ext hok rfl)
  · have haccounts := run_copyAll_accounts world vault files
    obtain ⟨manifest, next, -, hentries, hfailures, hrun⟩ := exists_run_snapshot world vault files
    rw [← hentries, ← hfailures] at haccounts
    refine ⟨manifest, next, haccounts, ?_⟩
    have hended : ended = _ := hrun
    rw [hended] at hfault ⊢
    generalize next.run (manifest.save vault.manifestPath).attempt = saved at hfault ⊢
    obtain ⟨fault | _, last⟩ := saved
    · cases hfault
      rfl
    · cases hfault
  · exact htouched.fileAt?_eq fun place hp => hspared file hf place hp

end Vault

end

namespace Sample

/-- Two files, and a directory where the copy of the second one belongs. -/
def cluttered : FallibleHost where
  host := {
    disk := {
      entries := [
        (["p"], .directory),
        (["p", "a"], .file "1".toUTF8),
        (["p", "b"], .file "2".toUTF8),
        (["p", "backups"], .directory),
        (["p", "backups", "b"], .directory)]
      here := ["p"] } }

/-- A file that is copied, one that cannot be and one that is not there. -/
theorem cluttered_accounted :
    (vault.paths ["a", "b", "c"]).Pairwise cluttered.disk.Apart ∧
    ∃ manifest after,
      cluttered.run (vault.snapshot ["a", "b", "c"]).attempt = (.ok manifest, after) ∧
      vault.Accounted ["a", "b", "c"] cluttered.disk after.disk manifest ∧
      manifest.entries.map (·.file) = ["a"] ∧ manifest.failures.map (·.file) = ["b", "c"] ∧
      after.disk.fileAt? ⟨"/p/b"⟩ = some "2".toUTF8 := by
  have hapart : (vault.paths ["a", "b", "c"]).Pairwise cluttered.disk.Apart := by decide +kernel
  have hplace : cluttered.disk.destination vault.manifestPath =
      some ["p", "backups", "backup-info.json"] := by
    decide +kernel
  have hkeeps := Disk.keeps_of_destination hplace fun _ h => nomatch h
  have hsizes : ∀ file ∈ ["a", "b", "c"],
      ∀ data ∈ cluttered.disk.fileAt? (vault.sourceRoot.under ⟨file⟩), data.size < Count.bound := by
    decide +kernel
  have hnoted : (cluttered.run (vault.snapshot ["a", "b", "c"]).attempt).1.toOption.map
      (fun manifest => (manifest.entries.map (·.file), manifest.failures.map (·.file))) =
        some (["a"], ["b", "c"]) := by
    decide +kernel
  obtain ⟨haccounted, -, hsources⟩ := Vault.snapshot_accounts cluttered vault ["a", "b", "c"]
    (by decide) (Disk.solid_singleton rfl) hapart hkeeps hsizes
  rcases hrun : cluttered.run (vault.snapshot ["a", "b", "c"]).attempt with
    ⟨fault | manifest, after⟩
  · rw [hrun] at hnoted
    cases hnoted
  · rw [hrun] at hnoted haccounted hsources
    obtain ⟨hentries, hfailures⟩ := Prod.mk.inj (Option.some.inj hnoted)
    refine ⟨hapart, manifest, after, rfl, haccounted manifest rfl, hentries, hfailures, ?_⟩
    exact (hsources "b" (by decide)).trans (by decide +kernel)

/-- Two files.  What should be the copy of the first one is a link to the second one, and what
should be the manifest is one to a device. -/
def linkedCopy : FallibleHost where
  host := {
    disk := {
      entries := [
        (["dev"], .directory),
        (["dev", "null"], .device .null),
        (["p"], .directory),
        (["p", "a"], .file "1".toUTF8),
        (["p", "b"], .file "2".toUTF8),
        (["p", "backups"], .directory),
        (["p", "backups", "a"], .link "../b"),
        (["p", "backups", "backup-info.json"], .link "/dev/null")]
      here := ["p"] } }

/-- **Along a link a copy is written in place of a file**, and the manifest is lost in a device,
although no path is that of another one or below it. -/
theorem linkedCopy_lost :
    (vault.paths ["a", "b"]).Pairwise (fun path other =>
      ¬ path.parts <+: other.parts ∧ ¬ other.parts <+: path.parts) ∧
    (linkedCopy.run (vault.snapshot ["a", "b"]).attempt).1.toOption.map
      (fun manifest => (manifest.entries.map (·.file), manifest.failures)) =
        some (["a", "b"], []) ∧
    linkedCopy.disk.file? ["p", "b"] = some "2".toUTF8 ∧
    (linkedCopy.run (vault.snapshot ["a", "b"]).attempt).2.disk.file? ["p", "b"] =
      some "1".toUTF8 ∧
    (linkedCopy.run (vault.snapshot ["a", "b"]).attempt).2.disk.read vault.manifestPath =
      .ok .empty := by
  decide +kernel

end Sample

end StyleTokens

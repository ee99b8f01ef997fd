/-
Files that come back.

What a snapshot has copied comes back with a restore, also when the files were changed or
deleted since, and their directories with them.

* `Vault.LeftAlone` — what has become of a disk when the vault was left alone;
* `Vault.Awaits`, `LeftAlone.awaits` — files can be put to where they were, as they can when
  there are no links;
* `recoverable_of_snapshot` — the entries of a snapshot can be recovered then;
* `restoreLatest_of_snapshot` — a restore gives all of them their bytes, and leaves the
  others alone;
* `Sample.linkedDirectory_lost` — a file that does not come back.

Design notes: nothing is said of how the disk has become what it is.  A link on the way to
a file has to lead to a directory that is there, since directories are not made through
links.
-/
import StyleTokens.Proofs.Batch.Backup
import StyleTokens.Proofs.Vault.Restore

namespace StyleTokens

section

variable {world after : FallibleHost} {vault : Vault} {files : List String} {manifest : Manifest}
  {saved later : Disk} {entry : BackupEntry} {entries : List BackupEntry}

namespace Vault

/-- What has become of a disk since a snapshot of files was saved on it: the vault was left
alone, and no file lies in the way of another one or of the copies. -/
structure LeftAlone (vault : Vault) (files : List String) (saved now : Disk) : Prop where
  solid : now.Solid now.here
  manifest : now.read vault.manifestPath = saved.read vault.manifestPath
  copies : ∀ file ∈ files, now.read (vault.backupPath file) = saved.read (vault.backupPath file)
  sources : files.Pairwise fun file other =>
    now.Apart (vault.sourceRoot.under ⟨file⟩) (vault.sourceRoot.under ⟨other⟩)
  source_backup : ∀ file ∈ files, ∀ other ∈ files,
    now.Apart (vault.sourceRoot.under ⟨file⟩) (vault.backupPath other)
  bypasses : ∀ file ∈ files, ∀ other ∈ files,
    now.Bypasses (vault.sourceRoot.under ⟨file⟩) (vault.sourceRoot.under ⟨other⟩)

/-- Nor does anything else lie in their way. -/
structure Awaits (vault : Vault) (files : List String) (saved now : Disk) : Prop extends
    vault.LeftAlone files saved now where
  admits : ∀ file ∈ files, now.Admits (vault.sourceRoot.under ⟨file⟩)

/-- Without links, it is enough that directories and files are where they should be. -/
theorem LeftAlone.awaits (h : vault.LeftAlone files saved later)
    (hlinks : ∀ place, later.link? place = none)
    (hclear : ∀ file ∈ files, later.Clear (vault.sourceRoot.under ⟨file⟩)) :
    vault.Awaits files saved later :=
  ⟨h, fun file hf => (hclear file hf).admits hlinks⟩

/-- The path that a restore writes to leads where that of the file does. -/
theorem destination_under_plain (hlasts : vault.sourceRoot.Lasts) (disk : Disk) (file : String) :
    disk.destination (Path.under ⟨vault.sourceRoot.plain⟩ ⟨file⟩) =
      disk.destination (vault.sourceRoot.under ⟨file⟩) :=
  have hsame := Path.under_plain_spec hlasts ⟨file⟩
  Disk.destination_eq_of_moves hsame.2 hsame.1

/-- An entry of a snapshot can be recovered. -/
theorem recoverable_of_copied {before : Disk} {data : ByteArray}
    (hcopied : vault.Copied before saved entry data) (hlasts : vault.sourceRoot.Lasts)
    (hawaits : vault.Awaits files saved later) (hf : entry.file ∈ files) :
    entry.Recoverable ⟨vault.sourceRoot.plain⟩ later data := by
  obtain ⟨habs, hmoves⟩ := Path.under_plain_spec hlasts ⟨entry.file⟩
  obtain ⟨haccepts, hends⟩ := Disk.accepts_under_plain hcopied.accepts hcopied.ends hlasts
  exact {
    copy := by
      rw [hcopied.backup_eq]
      exact Disk.read_plain hawaits.solid ((hawaits.copies _ hf).trans hcopied.copy)
    intact := hcopied.sha256_eq
    accepts := haccepts
    ends := hends
    admits := (hawaits.admits _ hf).of_moves hmoves habs }

/-- **The entries of a snapshot can be recovered** together. -/
theorem recoverable_of_snapshot (hlasts : vault.sourceRoot.Lasts)
    (hcopied : ∀ entry ∈ entries, ∃ data, vault.Copied world.disk saved entry data)
    (hawaits : vault.Awaits (entries.map (·.file)) saved later) :
    Manifest.Recoverable ⟨vault.sourceRoot.plain⟩ later entries := by
  have hmem {entry : BackupEntry} (he : entry ∈ entries) : entry.file ∈ entries.map (·.file) :=
    List.mem_map_of_mem he
  exact {
    each := fun entry he => (hcopied entry he).imp fun _ h =>
      recoverable_of_copied h hlasts hawaits (hmem he)
    files := (List.pairwise_map.1 hawaits.sources).imp fun hapart place hp hp' => by
      rw [destination_under_plain hlasts] at hp hp'
      exact hapart place hp hp'
    copies := fun entry he other ho place hp hp' => by
      obtain ⟨_, hother⟩ := hcopied other ho
      rw [destination_under_plain hlasts] at hp
      rw [hother.backup_eq, Disk.destination_plain hawaits.solid
        ((hawaits.copies _ (hmem ho)).trans hother.copy)] at hp'
      exact hawaits.source_backup _ (hmem he) _ (hmem ho) place hp hp'
    bypasses := fun entry he other ho place hp hcross => by
      obtain ⟨habs, hmoves⟩ := Path.under_plain_spec hlasts ⟨other.file⟩
      rw [destination_under_plain hlasts] at hp
      exact hawaits.bypasses _ (hmem he) _ (hmem ho) place hp
        ((Disk.crosses_iff_of_moves hmoves habs).1 hcross) }

end Vault

end

/-- **What a snapshot has copied comes back.**  Whatever was in the vault before, whatever
was refused when the snapshot was taken, and whatever has become of the files since: a
restore succeeds for every entry of the manifest, gives its file the bytes that it had, and
touches no other file. -/
theorem Vault.restoreLatest_of_snapshot (world after : FallibleHost) (vault : Vault)
    (files : List String) (manifest : Manifest) (later : Host)
    (hs : world.disk.Solid world.disk.here) (hlasts : vault.sourceRoot.Lasts)
    (hapart : (vault.paths files).Pairwise world.disk.Apart)
    (hkeeps : world.disk.Keeps vault.manifestPath)
    (hsnapshot : world.run (vault.snapshot files).attempt = (.ok manifest, after))
    (hsized : manifest.Sized)
    (hawaits : vault.Awaits (manifest.entries.map (·.file)) after.disk later.disk) :
    let restored := later.run vault.restoreLatest.attempt
    (∃ result, restored.1 = .ok result ∧ result.allRestored = true ∧
      result.outcomes = manifest.entries.map fun entry => ⟨entry.file, none⟩) ∧
    (∀ entry ∈ manifest.entries, ∃ data,
      world.disk.BytesAt (vault.sourceRoot.under ⟨entry.file⟩) data ∧
        restored.2.disk.read (vault.sourceRoot.under ⟨entry.file⟩) = .ok data) ∧
    ∀ place, (∀ entry ∈ manifest.entries,
      later.disk.destination (vault.sourceRoot.under ⟨entry.file⟩) ≠ some place) →
        restored.2.disk.file? place = later.disk.file? place := by
  have hscattered := scattered_of_pairwise hapart
  have hcopied := run_snapshot_copied hs hscattered.separates hscattered.backup_manifest hsnapshot
  have hroot := sourceRoot_of_run_snapshot hsnapshot
  have hrecoverable := recoverable_of_snapshot hlasts hcopied hawaits
  rw [← hroot] at hrecoverable
  have hmanifest := hawaits.manifest.trans (run_snapshot_manifest hs hkeeps hsnapshot)
  -- a plain host is a world that refuses nothing
  have hgrants : FallibleHost.Grants { host := later } := fun _ _ => rfl
  obtain ⟨result, last, hrun, houtcomes, hall, htouched, hreads⟩ :=
    run_restoreLatest hgrants hawaits.solid hmanifest hsized hrecoverable
  obtain ⟨hresult, hhost⟩ := FallibleHost.run_of_never { host := later } (fun _ _ => rfl)
    vault.restoreLatest.attempt
  rw [hrun] at hresult hhost
  intro restored
  have hlast : restored.2.disk = last.disk := congrArg Host.disk hhost.symm
  rw [hlast]
  rw [hroot] at htouched hreads
  refine ⟨⟨result, hresult.symm, hall, houtcomes⟩, fun entry he => ?_, fun place hother =>
    htouched.file?_eq place ?_⟩
  · obtain ⟨data, hentry⟩ := hcopied entry he
    obtain ⟨habs, hmoves⟩ := Path.under_plain_spec hlasts ⟨entry.file⟩
    have hread := hreads entry he data
      (recoverable_of_copied hentry hlasts hawaits (List.mem_map_of_mem he))
    exact ⟨data, hentry.source, Disk.read_of_moves (htouched.solid_here hawaits.solid) hread
      hentry.accepts hentry.ends hmoves.symm habs.symm⟩
  · rintro ⟨entry, he, hp⟩
    rw [destination_under_plain hlasts] at hp
    exact hother entry he hp

/-! ### Files that were deleted -/

namespace Sample

/-- What comes of a snapshot. -/
def saved (world : FallibleHost) (files : List String) : Except Fault Manifest × FallibleHost :=
  world.run (vault.snapshot files).attempt

/-- What is left when something is removed after a snapshot. -/
def left (world : FallibleHost) (files : List String) (path : Path) : Host where
  disk := ((saved world files).2.disk.remove path).toOption.getD default

/-- The vault is left alone when something is removed after a snapshot, and nothing but what
is missing stands in the way of the files. -/
structure TakenAway (world : FallibleHost) (files : List String) (path : Path) : Prop where
  removed : (saved world files).2.disk.remove path = .ok (left world files path).disk
  alone : vault.LeftAlone files (saved world files).2.disk (left world files path).disk
  clear : ∀ file ∈ files, (left world files path).disk.Clear (vault.sourceRoot.under ⟨file⟩)

/-- What is still read when something was removed is what was read before. -/
theorem read_eq_of_remove {disk later : Disk} {path other : Path}
    (h : disk.remove path = .ok later) (hr : (later.read other).toOption.isSome) :
    later.read other = disk.read other := by
  cases hread : later.read other with
  | error cause =>
    rw [hread] at hr
    cases hr
  | ok data => exact (Disk.read_of_remove h hread).symm

/-- Whether this is so is told without a look at the bytes. -/
theorem takenAway {world : FallibleHost} {files : List String} {path : Path}
    (h : let disk := (left world files path).disk
      ((saved world files).2.disk.remove path).toOption.isSome ∧
      disk.here = ["p"] ∧ (disk.entry? ["p"]).any Entry.isDirectory ∧
      (disk.read vault.manifestPath).toOption.isSome ∧
      files.Pairwise (fun file other =>
        disk.Apart (vault.sourceRoot.under ⟨file⟩) (vault.sourceRoot.under ⟨other⟩)) ∧
      ∀ file ∈ files, (disk.read (vault.backupPath file)).toOption.isSome ∧
        disk.Clear (vault.sourceRoot.under ⟨file⟩) ∧
        ∀ other ∈ files, disk.Apart (vault.sourceRoot.under ⟨file⟩) (vault.backupPath other) ∧
          disk.Bypasses (vault.sourceRoot.under ⟨file⟩) (vault.sourceRoot.under ⟨other⟩)) :
    TakenAway world files path := by
  obtain ⟨hremoved, hhere, htop, hmanifest, hsources, hfiles⟩ := h
  have hremove : (saved world files).2.disk.remove path = .ok (left world files path).disk := by
    rw [left]
    cases hr : (saved world files).2.disk.remove path with
    | error cause =>
      rw [hr] at hremoved
      cases hremoved
    | ok disk => rfl
  exact {
    removed := hremove
    alone := {
      solid := by
        rw [hhere]
        exact Disk.solid_singleton (Disk.any_isDirectory_iff.1 htop)
      manifest := read_eq_of_remove hremove hmanifest
      copies := fun file hf => read_eq_of_remove hremove (hfiles file hf).1
      sources := hsources
      source_backup := fun file hf other ho => ((hfiles file hf).2.2 other ho).1
      bypasses := fun file hf other ho => ((hfiles file hf).2.2 other ho).2 }
    clear := fun file hf => (hfiles file hf).2.1 }

/-- Neither a snapshot nor a removal brings links. -/
theorem TakenAway.no_links {world : FallibleHost} {files : List String} {path : Path}
    (h : TakenAway world files path) (hs : world.disk.Solid world.disk.here)
    (hlinks : ∀ place, world.disk.link? place = none) (place : Place) :
    (left world files path).disk.link? place = none := by
  have hdev := ((vault.snapshot_obeys world.disk files).touched hs).toDevelops
  cases hl : (left world files path).disk.link? place with
  | none => rfl
  | some target =>
    have hlink := (Disk.remove_spec h.removed).2 place _ (Disk.link?_eq_some_iff.1 hl)
    rw [← Disk.link?_eq_some_iff] at hlink
    exact absurd ((hdev.link?_eq place).symm.trans hlink) (by simp [hlinks])

/-- The names and the sizes of the entries tell what can be loaded again. -/
theorem exists_saved (world : FallibleHost) (files : List String) (listed : List (String × Nat))
    (h : (saved world files).1.toOption.map
      (fun manifest => manifest.entries.map fun entry => (entry.file, entry.size)) = some listed)
    (hsmall : ∀ item ∈ listed, item.2 < Count.bound) :
    ∃ manifest after, saved world files = (.ok manifest, after) ∧ manifest.Sized ∧
      manifest.entries.map (·.file) = listed.map (·.1) := by
  rcases hsaved : saved world files with ⟨fault | manifest, after⟩
  · rw [hsaved] at h
    cases h
  · rw [hsaved] at h
    obtain rfl := Option.some.inj h
    exact ⟨manifest, after, rfl, fun entry he => hsmall _ (List.mem_map_of_mem he),
      by rw [List.map_map]; rfl⟩

/-- Two files, one of which is no text, and a vault with an older copy of the other one. -/
def drafts : FallibleHost where
  host := {
    disk := {
      entries := [
        (["p"], .directory),
        (["p", "src"], .directory),
        (["p", "src", "a"], .file ⟨#[255]⟩),
        (["p", "b"], .file "4".toUTF8),
        (["p", "backups"], .directory),
        (["p", "backups", "b"], .file "1".toUTF8)]
      here := ["p"] } }

theorem drafts_takenAway : TakenAway drafts ["src/a", "b"] ⟨"src"⟩ :=
  takenAway (by decide +kernel)

theorem drafts_keeps : drafts.disk.Keeps vault.manifestPath := by
  have hplace : drafts.disk.destination vault.manifestPath =
      some ["p", "backups", "backup-info.json"] := by
    decide +kernel
  exact Disk.keeps_of_destination hplace fun _ h => nomatch h

/-- A file that is no text comes back with the directory that it was in. -/
theorem drafts_return :
    let lost := left drafts ["src/a", "b"] ⟨"src"⟩
    lost.disk.read ⟨"/p/src/a"⟩ = .error .notFound ∧
      (lost.run vault.restoreLatest.attempt).2.disk.read ⟨"/p/src/a"⟩ = .ok ⟨#[255]⟩ := by
  have hsolid : drafts.disk.Solid drafts.disk.here := Disk.solid_singleton rfl
  have htaken := drafts_takenAway
  have hlinks := htaken.no_links hsolid (Disk.link?_eq_none_of_entries (by simp [drafts]))
  have hawaits := htaken.alone.awaits hlinks htaken.clear
  obtain ⟨manifest, after, hsaved, hsized, hfiles⟩ := exists_saved drafts ["src/a", "b"]
    [("src/a", 1), ("b", 1)] (by decide +kernel) (by decide)
  rw [hsaved] at hawaits
  have hlisted : "src/a" ∈ manifest.entries.map (·.file) := hfiles ▸ List.mem_cons_self
  have hreturn := Vault.restoreLatest_of_snapshot drafts after vault ["src/a", "b"] manifest
    (left drafts ["src/a", "b"] ⟨"src"⟩) hsolid (fun _ => by decide) (by decide +kernel)
    drafts_keeps hsaved hsized (hfiles ▸ hawaits)
  obtain ⟨entry, he, hfile⟩ := List.mem_map.1 hlisted
  obtain ⟨data, hbytes, hread⟩ := hreturn.2.1 entry he
  rw [hfile] at hbytes hread
  obtain rfl : data = ⟨#[255]⟩ := hbytes.unique (Disk.bytesAt_of_read (by decide +kernel))
  exact ⟨by decide +kernel, hread⟩

/-- A file that is reached through a link to its directory. -/
def linkedDirectory : FallibleHost where
  host := {
    disk := {
      entries := [
        (["p"], .directory),
        (["p", "real"], .directory),
        (["p", "real", "a"], .file "4".toUTF8),
        (["p", "l"], .link "real")]
      here := ["p"] } }

theorem linkedDirectory_takenAway : TakenAway linkedDirectory ["l/a"] ⟨"real"⟩ :=
  takenAway (by decide +kernel)

theorem linkedDirectory_keeps : linkedDirectory.disk.Keeps vault.manifestPath := by
  have hplace : linkedDirectory.disk.destination vault.manifestPath =
      some ["p", "backups", "backup-info.json"] := by
    decide +kernel
  exact Disk.keeps_of_destination hplace fun _ h => nomatch h

/-- **Behind a link that leads to nothing, a file does not come back**, although nothing but
what is missing stands in its way. -/
theorem linkedDirectory_lost :
    let lost := left linkedDirectory ["l/a"] ⟨"real"⟩
    ((saved linkedDirectory ["l/a"]).1.toOption.map (·.entries.map (·.file)) = some ["l/a"]) ∧
      (vault.paths ["l/a"]).Pairwise linkedDirectory.disk.Apart ∧
      TakenAway linkedDirectory ["l/a"] ⟨"real"⟩ ∧
      ∃ result, (lost.run vault.restoreLatest.attempt).1 = .ok result ∧
        result.allRestored = false := by
  intro lost
  have htaken := linkedDirectory_takenAway
  obtain ⟨manifest, after, hsaved, hsized, hfiles⟩ := exists_saved linkedDirectory ["l/a"]
    [("l/a", 1)] (by decide +kernel) (by decide)
  refine ⟨by rw [hsaved]; exact congrArg some hfiles, by decide +kernel, htaken, ?_⟩
  obtain ⟨entry, hentries⟩ : ∃ entry, manifest.entries = [entry] :=
    List.length_eq_one_iff.1 (by simpa using congrArg List.length hfiles)
  have hfile : entry.file = "l/a" := by simpa [hentries] using hfiles
  have hread := htaken.alone.manifest
  rw [hsaved] at hread
  have hmanifest := hread.trans (Vault.run_snapshot_manifest (Disk.solid_singleton rfl)
    linkedDirectory_keeps hsaved)
  have hgrants : FallibleHost.Grants { host := left linkedDirectory ["l/a"] ⟨"real"⟩ } :=
    fun _ _ => rfl
  obtain ⟨loaded, hloaded, -, hrun⟩ := Vault.run_restoreLatest_eq hgrants hmanifest hsized
  obtain ⟨hresult, -⟩ := FallibleHost.run_of_never { host := left linkedDirectory ["l/a"] ⟨"real"⟩ }
    (fun _ _ => rfl) vault.restoreLatest.attempt
  rw [hrun] at hresult
  refine ⟨_, hresult.symm, Bool.eq_false_iff.2 fun hall => ?_⟩
  rw [RestoreResult.allRestored_iff, hentries] at hall
  obtain ⟨_, hrestore⟩ := Manifest.restore_of_restoreAll hall
  have hparent : (Path.under ⟨manifest.sourceRoot⟩ ⟨entry.file⟩).parent? = some ⟨"/p/l"⟩ := by
    rw [hfile, Vault.sourceRoot_of_run_snapshot hsaved]
    decide
  have hmade := BackupEntry.makeDirectories_of_restore hparent hrestore
  rw [hloaded] at hmade
  exact absurd hmade (by decide +kernel)

end Sample

end StyleTokens

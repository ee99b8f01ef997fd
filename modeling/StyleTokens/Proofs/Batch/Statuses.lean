/-
Statuses tell the truth about the disk.

When the last write of a batch is over and the gate has not begun, a file that is
reported as fixed has its new text, and every other file outside the vault is as it
was.  With a vault, the manifest names exactly the files that got as far as their
write.

* `Batch.Truthful` — results that tell what is on the disk;
* `Batch.BackedUp` — a manifest that names the files that were to be written;
* `run_process_eq` — the phases of a real run in parts;
* `run_secure_chooses` — the second phase chooses the files that go on;
* `truthful_process`, `backedUp_run` — what is said of the files, and of the manifest;
* `run_truthful` — the results of a batch tell the truth.

Design notes: two paths may lead to one file by way of a link.  What is said of all
files is therefore said of their places, and a file counts as fixed when one of the
paths to it does.
-/
import Mathlib.Data.List.Nodup
import StyleTokens.Proofs.Batch.Phases

namespace StyleTokens

variable {world : FallibleHost} {batch : Batch}

/-- The files that a manifest names, if there is one. -/
def Manifest.named : Option Manifest → List String
  | none => []
  | some manifest => manifest.entries.map (·.file)

namespace Batch

/-- The places that belong to the vault when some files are backed up. -/
def VaultPlace (batch : Batch) (disk : Disk) (files : List String) (place : Place) : Prop :=
  ∃ vault, batch.vault = some vault ∧ vault.SnapshotPlace disk files place

instance (batch : Batch) (disk : Disk) (files : List String) (place : Place) :
    Decidable (batch.VaultPlace disk files place) :=
  inferInstanceAs (Decidable (∃ vault ∈ batch.vault, vault.SnapshotPlace disk files place))

theorem VaultPlace.mono {disk : Disk} {files others : List String} {place : Place}
    (h : batch.VaultPlace disk files place) (hsub : ∀ file ∈ files, file ∈ others) :
    batch.VaultPlace disk others place := by
  obtain ⟨vault, hv, hplace⟩ := h
  exact ⟨vault, hv, hplace.imp_right fun ⟨file, hf, hcopy⟩ => ⟨file, hsub file hf, hcopy⟩⟩

/-- Records of a window that tell what has become of the files of a listing. -/
structure Truthful (batch : Batch) (before after : Disk) (listing window : List String)
    (records : List FileRecord) : Prop where
  /-- A fixed file has the text that the rules make of its old one. -/
  fixed : ∀ record ∈ records, record.status = .fixed → ∃ data text,
    before.read (batch.root.under ⟨record.path⟩) = .ok data ∧
      String.fromUTF8? data = some text ∧
      after.read (batch.root.under ⟨record.path⟩) =
        .ok (String.ofList (batch.ruleSet.revise text.toList).text).toUTF8
  /-- Where no path of a fixed file leads, the file is as it was, or there is still none. -/
  kept : ∀ place, ¬ batch.VaultPlace before window place →
    (∀ record ∈ records, record.status = .fixed →
      before.destination (batch.root.under ⟨record.path⟩) ≠ some place) →
    after.file? place = before.file? place
  /-- A listed file that is not reported as fixed is as it was, unless the path of another
  listed file leads there as well. -/
  unfixed : ∀ file ∈ listing, (∀ record ∈ records, record.path = file → record.status ≠ .fixed) →
    (∀ other ∈ listing, other ≠ file →
      before.Apart (batch.root.under ⟨file⟩) (batch.root.under ⟨other⟩)) →
    ∀ place, before.destination (batch.root.under ⟨file⟩) = some place →
      after.file? place = before.file? place

/-- A manifest that names the files that got as far as their write.  A file that was to be
written and is not named has failed for its backup. -/
structure BackedUp (vault : Vault) (before after : Disk) (pending : List String)
    (report : BatchReport) (manifest : Option Manifest) : Prop where
  reported : report.backupManifest = manifest.map fun _ => vault.manifestPath.plain
  onDisk : ∀ written, manifest = some written → before.Keeps vault.manifestPath →
    after.read vault.manifestPath = .ok written.toJson.pretty.toUTF8
  /-- Each file is named once, in the order of the window. -/
  named_sublist : (Manifest.named manifest).Sublist (report.results.map (·.path))
  named_iff : ∀ record ∈ report.results,
    record.path ∈ Manifest.named manifest ↔ record.ReachedWrite
  unnamed : ∀ file ∈ pending, file ∉ Manifest.named manifest →
    ∃ record ∈ report.results, record.path = file ∧ record.status = .errored ∧
      ∃ reason, record.error = some ("backup failed: " ++ reason)

/-! ### The phases together -/

theorem run_process_eq (h : batch.dryRun = false) (world : FallibleHost) (files : List String) :
    let prepared := world.run (batch.prepareAll files)
    let secured := prepared.2.run (batch.secure prepared.1)
    let committed := secured.2.run (commitAll secured.1.2)
    world.run (batch.process files) = ((secured.1.1, committed.1), committed.2) := by
  rw [process_eq h, FallibleHost.run_bind, FallibleHost.run_bind, FallibleHost.run_bind]
  rfl

/-- **The files go on that the manifest names**, if a manifest could be written. -/
theorem run_secure_chooses {vault : Vault} (hv : batch.vault = some vault)
    (hs : world.disk.Solid world.disk.here) (files : List Progress) :
    ∃ manifest : Option Manifest,
      (world.run (batch.secure files)).1.1 = manifest.isSome ∧
      Chooses files (world.run (batch.secure files)).1.2 (Manifest.named manifest) ∧
      ∀ written, manifest = some written → world.disk.Keeps vault.manifestPath →
        (world.run (batch.secure files)).2.disk.read vault.manifestPath =
          .ok written.toJson.pretty.toUTF8 := by
  have hsecured := run_secure hv world files
  generalize world.run (batch.secure files) = secured at hsecured
  cases hsecured with
  | nothing hnone =>
    have hall := chooses_all files
    rw [hnone] at hall
    exact ⟨none, rfl, hall, fun _ h => nomatch h⟩
  | @copied manifest after h =>
    have hnotes := Vault.notes_of_run_snapshot (congrArg Prod.fst h)
    refine ⟨some manifest, rfl, chooses_accept files hnotes.sublist, ?_⟩
    rintro _ ⟨rfl⟩ hkeeps
    exact Vault.run_snapshot_manifest hs hkeeps h
  | @failed fault after h => exact ⟨none, rfl, chooses_refuse files fault, fun _ h => nomatch h⟩

/-- The second phase chooses files, with a vault or without. -/
theorem exists_chooses (hs : world.disk.Solid world.disk.here) (files : List Progress) :
    ∃ covered, Chooses files (world.run (batch.secure files)).1.2 covered := by
  cases hv : batch.vault with
  | none =>
    rw [run_secure_of_none hv]
    exact ⟨_, chooses_all files⟩
  | some vault =>
    obtain ⟨manifest, -, hchooses, -⟩ := run_secure_chooses hv hs files
    exact ⟨_, hchooses⟩

theorem exists_of_mem_right {α β : Type} {r : α → β → Prop} {as : List α} {bs : List β}
    (h : List.Forall₂ r as bs) {b : β} (hb : b ∈ bs) : ∃ a ∈ as, r a b := by
  induction h with
  | nil => cases hb
  | cons hr _ ih =>
    rcases List.mem_cons.1 hb with rfl | hb
    · exact ⟨_, List.mem_cons_self, hr⟩
    · obtain ⟨a, ha, hab⟩ := ih hb
      exact ⟨a, List.mem_cons_of_mem _ ha, hab⟩

theorem Prepared.path_eq {disk : Disk} {file : String} {progress : Progress}
    (h : batch.Prepared disk file progress) : progress.path = file := by
  cases h with
  | settled path _ => exact path
  | pending => rfl

theorem path_record (result : FileResult) : result.record.path = result.path := by
  obtain ⟨path, outcome⟩ := result
  cases outcome <;> rfl

theorem path_fixed (write : Pending) : write.fixed.record.path = write.file := rfl

theorem Ends.path_eq {covered : List String} {progress : Progress} {result : FileResult}
    (h : Ends covered progress result) : result.record.path = progress.path := by
  cases h with
  | early => exact path_record result
  | uncovered => rfl
  | fixed => rfl
  | failed => rfl

/-- Only covered files get as far as their write. -/
theorem Ends.reachedWrite_iff {disk : Disk} {file : String} {covered : List String}
    {progress : Progress} {result : FileResult} (h : Ends covered progress result)
    (hp : batch.Prepared disk file progress) :
    result.record.ReachedWrite ↔ ∃ write, progress = .pending write ∧ write.file ∈ covered := by
  cases h with
  | early =>
    cases hp with
    | settled _ early => simp [early]
  | uncovered hn reason =>
    simp [Pending.errored, hn, not_reachedWrite_errored (Or.inr rfl)]
  | fixed hc => simp [hc, FileRecord.ReachedWrite, Pending.fixed, FileResult.record]
  | failed hc reason => simp [hc, FileRecord.ReachedWrite, Pending.errored, FileResult.record]

variable {files : List String} {prepared chosen : List Progress} {results : List FileResult}
  {covered : List String} {disk middle later : Disk}

theorem paths_of_prepared (hprepared : List.Forall₂ (batch.Prepared disk) files prepared) :
    prepared.map Progress.path = files := by
  induction hprepared with
  | nil => rfl
  | cons hfile _ ih => rw [List.map_cons, hfile.path_eq, ih]

/-- A record is that of a covered file exactly if the file got as far as its write. -/
theorem mem_covered_iff (hprepared : List.Forall₂ (batch.Prepared disk) files prepared)
    (hnodup : files.Nodup) (hsub : covered.Sublist (pendingFiles prepared))
    (hends : List.Forall₂ (Ends covered) prepared results) {result : FileResult}
    (hr : result ∈ results) :
    result.record.path ∈ covered ↔ result.record.ReachedWrite := by
  obtain ⟨progress, hp, hend⟩ := exists_of_mem_right hends hr
  obtain ⟨file, -, hfile⟩ := exists_of_mem_right hprepared hp
  rw [hend.reachedWrite_iff hfile, hend.path_eq]
  constructor
  · intro hc
    obtain ⟨write, hw, hpath⟩ := mem_pendingFiles.1 (hsub.mem hc)
    -- no two files of the window have one name
    have hsame : Progress.pending write = progress :=
      List.inj_on_of_nodup_map (paths_of_prepared hprepared ▸ hnodup) hw hp hpath
    subst hsame
    exact ⟨write, rfl, hc⟩
  · rintro ⟨write, rfl, hc⟩
    exact hc

/-- What is known of a file that is pending, in whatever phase. -/
theorem Chooses.prepared_of_mem (hprepared : List.Forall₂ (batch.Prepared disk) files prepared)
    (hchooses : Chooses prepared chosen covered) {write : Pending} (hw : .pending write ∈ chosen) :
    write.path = batch.root.under ⟨write.file⟩ ∧ ∃ data text,
      disk.read write.path = .ok data ∧ disk.isFile write.path = true ∧
      String.fromUTF8? data = some text ∧
      write.bytes = (String.ofList (batch.ruleSet.revise text.toList).text).toUTF8 := by
  obtain ⟨file, -, hfile⟩ := exists_of_mem_right hprepared (hchooses.pending write hw).1
  obtain ⟨rfl, hpath, data, text, hread, htext, hne, hbytes⟩ := hfile.of_pending
  rw [hpath]
  exact ⟨rfl, data, text, hread, Disk.isFile_of_read hread hne, htext, hbytes⟩

/-- **A fixed file has the text that the rules make of its old one**, and nothing else
has changed outside the vault. -/
theorem truthful_of_committed (hprepared : List.Forall₂ (batch.Prepared disk) files prepared)
    (hchooses : Chooses prepared chosen covered)
    (htouched : disk.Touched middle (batch.VaultPlace disk files))
    (hcommitted : Committed middle chosen results later) (hs : disk.Solid disk.here)
    {listing : List String} (hlisted : ∀ result ∈ results, result.record.path ∈ listing)
    (hspared : ∀ file ∈ listing, ∀ place,
      disk.destination (batch.root.under ⟨file⟩) = some place → ¬ batch.VaultPlace disk files place) :
    batch.Truthful disk later listing files (results.map FileResult.record) := by
  have hs' := htouched.solid_here hs
  have hkept : ∀ place, ¬ batch.VaultPlace disk files place →
      (∀ record ∈ results.map FileResult.record, record.status = .fixed →
        disk.destination (batch.root.under ⟨record.path⟩) ≠ some place) →
      later.file? place = disk.file? place := by
    intro place hvault hplace
    refine (hcommitted.file?_eq hs' fun write hr hw => ?_).trans (htouched.file?_eq place hvault)
    rw [htouched.destination_eq, (hchooses.prepared_of_mem hprepared hw).1]
    have hapart := hplace _ (List.mem_map_of_mem hr) rfl
    rwa [path_fixed] at hapart
  refine ⟨fun record hrecord hfixed => ?_, hkept, fun file hfile hstatus hapart place hplace =>
    hkept place (hspared file hfile place hplace) fun record hrecord hfixed hd => ?_⟩
  · obtain ⟨result, hr, rfl⟩ := List.mem_map.1 hrecord
    obtain ⟨write, hw, rfl, hread⟩ := hcommitted.read_fixed hs'
      (fun write hw => by
        obtain ⟨-, data, text, -, hisFile, -⟩ := hchooses.prepared_of_mem hprepared hw
        exact htouched.isFile hisFile)
      (fun write hw other ho place hd hd' => by
        -- both were read from one place, so that they were given the same new text
        obtain ⟨-, data, text, hread, hisFile, htext, hbytes⟩ :=
          hchooses.prepared_of_mem hprepared hw
        obtain ⟨-, data', text', hread', hisFile', htext', hbytes'⟩ :=
          hchooses.prepared_of_mem hprepared ho
        obtain ⟨first, hfirst, hdata⟩ := Disk.file?_of_isFile hisFile hread
        obtain ⟨second, hsecond, hdata'⟩ := Disk.file?_of_isFile hisFile' hread'
        rw [htouched.destination_eq] at hd hd'
        obtain rfl : first = place := Option.some.inj (hfirst.symm.trans hd)
        obtain rfl : second = first := Option.some.inj (hsecond.symm.trans hd')
        obtain rfl : data = data' := Option.some.inj (hdata.symm.trans hdata')
        obtain rfl : text = text' := Option.some.inj (htext.symm.trans htext')
        rw [hbytes, hbytes'])
      (fun result hm hfixed => by
        rcases hchooses.settled result hm with hm | herrored
        · obtain ⟨file, -, hfile⟩ := exists_of_mem_right hprepared hm
          cases hfile with
          | settled _ early => exact early (Or.inl hfixed)
        · rw [herrored] at hfixed
          cases hfixed)
      hr hfixed
    obtain ⟨hpath, data, text, hold, -, htext, hbytes⟩ := hchooses.prepared_of_mem hprepared hw
    rw [hbytes] at hread
    rw [path_fixed, ← hpath]
    exact ⟨data, text, hold, htext, hread⟩
  · obtain ⟨result, hr, rfl⟩ := List.mem_map.1 hrecord
    by_cases hsame : result.record.path = file
    · exact hstatus _ hrecord hsame hfixed
    · exact hapart _ (hlisted result hr) hsame place hplace hd

/-- The second phase writes at the places of the vault. -/
theorem secure_within_vault (hprepared : List.Forall₂ (batch.Prepared disk) files prepared) :
    (batch.secure prepared).Obeys (Request.Within disk (batch.VaultPlace disk files))
      fun _ => True := by
  refine (batch.secure_within disk prepared).mono (fun _ h => h.mono fun place hp => ?_)
    fun _ h => h
  refine VaultPlace.mono hp fun file hf => ?_
  obtain ⟨write, hw, rfl⟩ := mem_pendingFiles.1 hf
  obtain ⟨file, hmem, hfile⟩ := exists_of_mem_right hprepared hw
  rwa [hfile.of_pending.1]

theorem touched_secure (hs : world.disk.Solid world.disk.here)
    (hprepared : List.Forall₂ (batch.Prepared world.disk) files prepared) :
    world.disk.Touched (world.run (batch.secure prepared)).2.disk
      (batch.VaultPlace world.disk files) :=
  (secure_within_vault hprepared).touched hs

/-- What becomes of prepared files, in order. -/
theorem paths_of_ends (hprepared : List.Forall₂ (batch.Prepared disk) files prepared)
    (hends : List.Forall₂ (Ends covered) prepared results) :
    results.map (·.record.path) = files := by
  induction hprepared generalizing results with
  | nil =>
    cases hends
    rfl
  | cons hfile _ ih =>
    cases hends with
    | cons hend hrest => rw [List.map_cons, hend.path_eq, hfile.path_eq, ih hrest]

/-- Backing up and writing prepared files leaves what the results tell. -/
theorem truthful_of_prepared (hs : world.disk.Solid world.disk.here)
    (hprepared : List.Forall₂ (batch.Prepared world.disk) files prepared)
    {listing : List String} (hlisted : ∀ file ∈ files, file ∈ listing)
    (hspared : ∀ file ∈ listing, ∀ place,
      world.disk.destination (batch.root.under ⟨file⟩) = some place →
        ¬ batch.VaultPlace world.disk files place) :
    let secured := world.run (batch.secure prepared)
    let committed := secured.2.run (commitAll secured.1.2)
    batch.Truthful world.disk committed.2.disk listing files
      (committed.1.map FileResult.record) := by
  intro secured committed
  have hexists : ∃ covered, Chooses prepared secured.1.2 covered := exists_chooses hs prepared
  obtain ⟨covered, hchooses⟩ := hexists
  have hcommitted := commitAll_committed secured.2 secured.1.2
  have hends := hchooses.ends _ (hcommitted.ends fun write hw => (hchooses.pending write hw).2)
  refine truthful_of_committed hprepared hchooses (touched_secure hs hprepared) hcommitted hs
    (fun result hr => hlisted _ ?_) hspared
  rw [← paths_of_ends hprepared hends]
  exact List.mem_map_of_mem hr

/-- The manifest names the files that got as far as their write. -/
theorem backedUp_of_prepared {vault : Vault} (hv : batch.vault = some vault)
    (hs : world.disk.Solid world.disk.here)
    (hprepared : List.Forall₂ (batch.Prepared world.disk) files prepared) (hnodup : files.Nodup)
    (hspared : ∀ file ∈ files, ∀ place,
      world.disk.destination (batch.root.under ⟨file⟩) = some place →
        ¬ batch.VaultPlace world.disk files place)
    {report : BatchReport} :
    let secured := world.run (batch.secure prepared)
    let committed := secured.2.run (commitAll secured.1.2)
    report.results = committed.1.map FileResult.record →
    report.backupManifest = (if secured.1.1 then some vault.manifestPath.plain else none) →
      ∃ manifest, BackedUp vault world.disk committed.2.disk (pendingFiles prepared) report
        manifest := by
  intro secured committed hresults hmanifest
  obtain ⟨manifest, hflag, hchooses, honDisk⟩ := run_secure_chooses hv hs prepared
  have htouched := touched_secure hs hprepared
  have hs' := htouched.solid_here hs
  have hcommitted := commitAll_committed secured.2 secured.1.2
  have hends := hchooses.ends _ (hcommitted.ends fun write hw => (hchooses.pending write hw).2)
  refine ⟨manifest, ?_, fun written hw hkeeps => ?_, ?_, fun record hrecord => ?_,
    fun file hfile hn => ?_⟩
  · rw [hmanifest, hflag]
    cases manifest <;> rfl
  · -- no file that is written lies where the manifest does
    refine (hcommitted.touched hs').read (honDisk written hw hkeeps) ?_
    rintro place hplace ⟨write, -, hw, hplace'⟩
    rw [htouched.destination_eq] at hplace hplace'
    obtain ⟨file, hfile, hprep⟩ := exists_of_mem_right hprepared (hchooses.pending write hw).1
    rw [hprep.of_pending.2.1] at hplace'
    exact hspared file hfile place hplace' ⟨vault, hv, Or.inl hplace⟩
  · rw [hresults, List.map_map]
    show (Manifest.named manifest).Sublist (committed.1.map (·.record.path))
    rw [paths_of_ends hprepared hends]
    refine hchooses.sublist.trans ?_
    rw [← paths_of_prepared hprepared]
    exact pendingFiles_sublist prepared
  · rw [hresults] at hrecord
    obtain ⟨result, hr, rfl⟩ := List.mem_map.1 hrecord
    exact mem_covered_iff hprepared hnodup hchooses.sublist hends hr
  · obtain ⟨write, hw, rfl⟩ := mem_pendingFiles.1 hfile
    obtain ⟨result, hr, hend⟩ := exists_of_mem_right hends.flip hw
    refine ⟨result.record, hresults ▸ List.mem_map_of_mem hr, ?_⟩
    cases hend with
    | uncovered _ reason => exact ⟨rfl, rfl, reason, rfl⟩
    | fixed hc => exact absurd hc hn
    | failed hc _ => exact absurd hc hn

/-- The results of a real run tell what is on the disk when the last write is over. -/
theorem truthful_process (hreal : batch.dryRun = false) (hs : world.disk.Solid world.disk.here)
    {listing : List String} (hlisted : ∀ file ∈ files, file ∈ listing)
    (hspared : ∀ file ∈ listing, ∀ place,
      world.disk.destination (batch.root.under ⟨file⟩) = some place →
        ¬ batch.VaultPlace world.disk files place) :
    let written := world.run (batch.process files)
    batch.Truthful world.disk written.2.disk listing files (written.1.2.map FileResult.record) := by
  intro written
  have hphases : written = _ := run_process_eq hreal world files
  have hprepared := batch.prepareAll_prepared world files
  have hdisk := (batch.prepareAll_obeys files).disk_run world
  rw [hphases]
  rw [← hdisk] at hs hspared hprepared ⊢
  exact truthful_of_prepared hs hprepared hlisted hspared

/-- The manifest of a real run names the files that got as far as their write. -/
theorem backedUp_run {vault : Vault} {names : Names} {window : Window}
    (hv : batch.vault = some vault) (hreal : batch.dryRun = false)
    (hs : world.disk.Solid world.disk.here)
    (hspared : ∀ file ∈ window.of names.toList, ∀ place,
      world.disk.destination (batch.root.under ⟨file⟩) = some place →
        ¬ batch.VaultPlace world.disk (window.of names.toList) place) :
    let prepared := world.run (batch.prepareAll (window.of names.toList))
    let written := world.run (batch.process (window.of names.toList))
    ∃ manifest, BackedUp vault world.disk written.2.disk (pendingFiles prepared.1)
      (world.run (batch.run names window)).1 manifest := by
  intro prepared written
  have hnodup : (window.of names.toList).Nodup :=
    (names.ascending.imp fun h => String.ne_of_lt h).sublist (window.of_sublist names.toList)
  have hprepared := batch.prepareAll_prepared world (window.of names.toList)
  have hdisk : prepared.2.disk = world.disk := (batch.prepareAll_obeys _).disk_run world
  obtain ⟨gate, timestamp, hreport⟩ := run_reports world batch names window
  rw [hreport]
  have hphases : written = _ := run_process_eq hreal world (window.of names.toList)
  rw [hphases]
  rw [← hdisk] at hs hspared hprepared ⊢
  refine backedUp_of_prepared hv hs hprepared hnodup hspared ?_ ?_
  · show (world.run (batch.process (window.of names.toList))).1.2.map FileResult.record = _
    rw [run_process_eq hreal]
  · show (if (world.run (batch.process (window.of names.toList))).1.1 then
      batch.vault.map (·.manifestPath.plain) else none) = _
    rw [run_process_eq hreal, hv]
    rfl

end Batch

/-! ### Runs -/

theorem Sample.solid : disk.Solid disk.here :=
  Disk.solid_singleton rfl

/-- The vault of the small project lies in a directory of its own. -/
theorem Sample.spared : ∀ file ∈ files.toList, ∀ place,
    disk.destination (Sample.batch.root.under ⟨file⟩) = some place →
      ¬ Sample.batch.VaultPlace disk (Window.of ⟨0, 3⟩ files.toList) place := by
  show ∀ file ∈ files.toList, ∀ place ∈ disk.destination (Sample.batch.root.under ⟨file⟩),
    ¬ Sample.batch.VaultPlace disk (Window.of ⟨0, 3⟩ files.toList) place
  decide +kernel

end StyleTokens

/-
The last batch is undone.

What a snapshot has copied can be restored when its batch is over, so that every file
outside the vault is what it was before the batch, whatever other batches had been run.

* `Vault.Kept` — an entry of a manifest and the bytes that its file had;
* `Vault.kept_of_snapshot`, `Vault.restorable_of_kept` — a snapshot is restorable while
  its copies stay;
* `Batch.restoreLatest_undoes_run` — a batch that wrote a manifest is undone.

Design notes: a batch without any file to write takes no snapshot, and so leaves the
manifest of an earlier batch.  The report tells whether there is a manifest of its own.
-/
import StyleTokens.Proofs.Batch.Windows
import StyleTokens.Proofs.Vault.Restore

namespace StyleTokens

section

variable {world after : FallibleHost} {batch : Batch} {vault : Vault} {disk later : Disk}
  {files listing : List String} {manifest : Manifest} {places : Place → Prop}

namespace Vault

/-- An entry can be restored on a disk, and gives the file the bytes that it had on
another one. -/
structure Kept (vault : Vault) (before now : Disk) (entry : BackupEntry) (data : ByteArray) :
    Prop extends entry.Restorable ⟨vault.sourceRoot.plain⟩ now data where
  source : before.read (vault.sourceRoot.under ⟨entry.file⟩) = .ok data
  size_eq : entry.size = data.size
  destination_eq : now.destination (Path.under ⟨vault.sourceRoot.plain⟩ ⟨entry.file⟩) =
    before.destination (vault.sourceRoot.under ⟨entry.file⟩)
  backup_eq : now.destination ⟨entry.backup⟩ = before.destination (vault.backupPath entry.file)

/-- **The entries of a snapshot can be restored** while their copies stay. -/
theorem kept_of_snapshot (hs : world.disk.Solid world.disk.here)
    (hscattered : vault.Scattered world.disk files) (hlasts : vault.sourceRoot.Lasts)
    (hfiles : ∀ file ∈ files, world.disk.isFile (vault.sourceRoot.under ⟨file⟩) = true)
    (h : world.run (vault.snapshot files).attempt = (.ok manifest, after))
    (htouched : after.disk.Touched later places)
    (hbackup : ∀ file ∈ files, ∀ place,
      world.disk.destination (vault.backupPath file) = some place → ¬ places place)
    {entry : BackupEntry} (hentry : entry ∈ manifest.entries) :
    entry.file ∈ files ∧ ∃ data, vault.Kept world.disk later entry data := by
  have hread : ∀ file ∈ files, ∃ data,
      world.disk.read (vault.sourceRoot.under ⟨file⟩) = .ok data := fun file hf => by
    obtain ⟨place, data, hfind⟩ := Disk.isFile_iff.1 (hfiles file hf)
    exact ⟨data, Disk.read_eq_ok_iff.2 ⟨place, _, hfind, Or.inl rfl⟩⟩
  obtain ⟨hmem, hdev, data, hholds, hcopy⟩ :=
    copies_of_snapshot hs hscattered hread h htouched hbackup hentry
  have hall := hdev.trans htouched.toDevelops
  have hs' := hall.solid_here hs
  obtain ⟨hfile, hdestination⟩ := Disk.isFile_under_plain hs' (hall.isFile (hfiles _ hmem)) hlasts
  exact ⟨hmem, data, {
    copy := by
      rw [hholds.backup_eq]
      exact Disk.read_plain hs' hcopy
    intact := hholds.sha256_eq
    original := hfile
    source := hholds.source
    size_eq := hholds.size_eq
    destination_eq := hdestination.trans (hall.destination_eq _)
    backup_eq := by
      rw [hholds.backup_eq, Disk.destination_plain hs' hcopy]
      exact hall.destination_eq _ }⟩

/-- They can be restored together. -/
theorem restorable_of_kept (hscattered : vault.Scattered disk files) (hnodup : files.Nodup)
    (hsub : (manifest.entries.map (·.file)).Sublist files)
    (hkept : ∀ entry ∈ manifest.entries, ∃ data, vault.Kept disk later entry data) :
    Manifest.Restorable ⟨vault.sourceRoot.plain⟩ later manifest.entries where
  each entry he := (hkept entry he).imp fun _ h => h.toRestorable
  files := by
    have hne : manifest.entries.Pairwise fun entry other => entry.file ≠ other.file :=
      List.pairwise_map.1 (hnodup.sublist hsub)
    refine hne.imp_of_mem fun {entry other} he ho hfile place hp hp' => ?_
    obtain ⟨_, hentry⟩ := hkept entry he
    obtain ⟨_, hother⟩ := hkept other ho
    rw [hentry.destination_eq] at hp
    rw [hother.destination_eq] at hp'
    exact hscattered.sources _ (hsub.mem (List.mem_map_of_mem he)) _
      (hsub.mem (List.mem_map_of_mem ho)) hfile place hp hp'
  copies entry he other ho place hp hp' := by
    obtain ⟨_, hentry⟩ := hkept entry he
    obtain ⟨_, hother⟩ := hkept other ho
    rw [hentry.destination_eq] at hp
    rw [hother.backup_eq] at hp'
    exact hscattered.source_backup _ (hsub.mem (List.mem_map_of_mem he)) _
      (hsub.mem (List.mem_map_of_mem ho)) place hp hp'

/-- The bytes that a file is given are those that it had. -/
theorem Kept.file?_eq {entry : BackupEntry} {data : ByteArray} {restored : Disk} {place : Place}
    (h : vault.Kept disk later entry data) (hdev : later.Develops restored)
    (hfile : disk.isFile (vault.sourceRoot.under ⟨entry.file⟩) = true)
    (hread : restored.read (Path.under ⟨vault.sourceRoot.plain⟩ ⟨entry.file⟩) = .ok data)
    (hp : disk.destination (vault.sourceRoot.under ⟨entry.file⟩) = some place) :
    restored.file? place = disk.file? place := by
  obtain ⟨old, hold, hbytes⟩ := Disk.file?_of_isFile hfile h.source
  obtain ⟨new, hnew, hbytes'⟩ := Disk.file?_of_isFile (hdev.isFile h.original) hread
  rw [hdev.destination_eq, h.destination_eq, hp] at hnew
  rw [hp] at hold
  cases hold
  cases hnew
  exact hbytes'.trans hbytes.symm

end Vault

namespace Batch

/-- A run whose report names a manifest has taken a snapshot. -/
theorem secured_of_backupManifest {names : Names} {window : Window}
    (h : (world.run (batch.run names window)).1.backupManifest ≠ none) :
    batch.dryRun = false ∧
      let prepared := world.run (batch.prepareAll (window.of names.toList))
      (prepared.2.run (batch.secure prepared.1)).1.1 = true := by
  obtain ⟨gate, timestamp, hreport⟩ := run_reports world batch names window
  have hprocessed : (world.run (batch.process (window.of names.toList))).1.1 = true := by
    rw [hreport, reportOn] at h
    by_contra hn
    exact h (if_neg hn)
  cases hdry : batch.dryRun with
  | true =>
    rw [process, FallibleHost.run_bind, hdry] at hprocessed
    cases hprocessed
  | false =>
    rw [run_process_eq hdry] at hprocessed
    exact ⟨rfl, hprocessed⟩

/-- The last thing that a run does to the disk is its gate. -/
theorem disk_run_eq {names : Names} {window : Window} :
    (world.run (batch.run names window)).2.disk =
      let processed := world.run (batch.process (window.of names.toList))
      (processed.2.run (batch.verify window.start
        (window.start + (window.of names.toList).length))).2.disk := by
  have hpaths : (world.run (batch.process (window.of names.toList))).1.2.map (·.path) =
      window.of names.toList := (batch.process_obeys _).result
  have hlength := congrArg List.length hpaths
  rw [List.length_map] at hlength
  rw [run_eq, FallibleHost.run_bind, FallibleHost.run_bind, FallibleHost.run_bind]
  dsimp only
  rw [hlength]
  have hnow : Request.Reads .now := trivial
  exact FallibleHost.disk_reply_of_reads _ hnow

/-- What comes after the second phase writes files that are pending, and logs. -/
theorem touched_after_secure {names : Names} {window : Window} (hreal : batch.dryRun = false)
    (hs : world.disk.Solid world.disk.here)
    (hquiet : ∀ first stop gate, batch.gateAt? first stop = some gate →
      world.KeepsToLogs gate.job) :
    let prepared := world.run (batch.prepareAll (window.of names.toList))
    let secured := prepared.2.run (batch.secure prepared.1)
    secured.2.disk.Touched (world.run (batch.run names window)).2.disk fun place =>
      WritePlace secured.2.disk secured.1.2 place ∨
        batch.LogPlace world.disk window.start
          (window.start + (window.of names.toList).length) place := by
  intro prepared secured
  have hprepared := batch.prepareAll_prepared world (window.of names.toList)
  have hdisk : prepared.2.disk = world.disk := (batch.prepareAll_obeys _).disk_run world
  have hprepare : prepared.2.disk.Solid prepared.2.disk.here := hdisk ▸ hs
  have hvault := touched_secure hprepare (hdisk ▸ hprepared)
  have hcommit := touched_commitAll (hvault.solid_here hprepare) secured.1.2
  have hcommitted : (secured.2.run (commitAll secured.1.2)).2 =
      (world.run (batch.process (window.of names.toList))).2 := by
    rw [run_process_eq hreal world (window.of names.toList)]
  have hshell := world.shell_run (batch.process (window.of names.toList))
  rw [disk_run_eq]
  dsimp only
  have hdev : world.disk.Develops (world.run (batch.process (window.of names.toList))).2.disk :=
    develops_process hs _
  have hverify := verify_grown (hdev.solid_here hs) fun gate hgate => by
    have hkeeps := hquiet window.start (window.start + (window.of names.toList).length) gate hgate
    rwa [FallibleHost.KeepsToLogs, ← hshell] at hkeeps
  refine Disk.Touched.trans (hcommit.mono fun _ hp => Or.inl hp) ?_
  rw [hcommitted]
  refine hverify.toTouched.mono fun place hp => Or.inr ?_
  obtain ⟨gate, hgate, hlog⟩ := hp
  rw [Gate.LogPlace, hdev.destination_eq, hdev.destination_eq] at hlog
  exact ⟨gate, hgate, hlog⟩

/-- What a batch has copied and written, when its second phase has taken a snapshot. -/
structure Undoable (batch : Batch) (vault : Vault) (before now : Disk) (listing : List String)
    (manifest : Manifest) (others : Place → Prop) : Prop where
  onDisk : now.read vault.manifestPath = .ok manifest.toJson.pretty.toUTF8
  root_eq : manifest.sourceRoot = vault.sourceRoot.plain
  sublist : (manifest.entries.map (·.file)).Sublist listing
  isFile : ∀ entry ∈ manifest.entries,
    before.isFile (vault.sourceRoot.under ⟨entry.file⟩) = true
  kept : ∀ entry ∈ manifest.entries, ∃ data, vault.Kept before now entry data
  touched : before.Touched now fun place => vault.SnapshotPlace before listing place ∨
    others place ∨ ∃ entry ∈ manifest.entries,
      before.destination (vault.sourceRoot.under ⟨entry.file⟩) = some place

section Prepared

variable {prepared : List Progress}
  (hprepared : List.Forall₂ (batch.Prepared world.disk) files prepared)

include hprepared

theorem pendingFiles_sublist_files : (pendingFiles prepared).Sublist files := by
  rw [← paths_of_prepared hprepared]
  exact pendingFiles_sublist prepared

variable (hroot : vault.sourceRoot = batch.root)

include hroot

/-- What is pending is a file. -/
theorem isFile_of_mem_pendingFiles {file : String} (hf : file ∈ pendingFiles prepared) :
    world.disk.isFile (vault.sourceRoot.under ⟨file⟩) = true := by
  obtain ⟨write, hw, rfl⟩ := mem_pendingFiles.1 hf
  obtain ⟨hpath, _, _, -, hfile, -⟩ := (chooses_all prepared).prepared_of_mem hprepared hw
  rwa [hpath, ← hroot] at hfile

/-- What is written is covered, and lies where its own path leads to. -/
theorem entry_of_writePlace
    (hnoted : (manifest.entries.map (·.file)).Sublist (pendingFiles prepared))
    (hdev : world.disk.Develops later) {place : Place}
    (hp : WritePlace later (prepared.map (accept manifest)) place) :
    ∃ entry ∈ manifest.entries, entry.file ∈ files ∧
      world.disk.destination (vault.sourceRoot.under ⟨entry.file⟩) = some place := by
  have hchooses := chooses_accept prepared hnoted
  obtain ⟨write, hw, hwf, hplace⟩ := source_of_writePlace hprepared hchooses hdev hp
  obtain ⟨entry, hentry, hfile⟩ := List.mem_map.1 (hchooses.pending write hw).2
  rw [← hroot, ← hfile] at hplace
  exact ⟨entry, hentry, hfile ▸ hwf, hplace⟩

end Prepared

section Sheltered

variable {prepared : List Progress} {others : Place → Prop}
  (hv : batch.vault = some vault) (hroot : vault.sourceRoot = batch.root)
  (hs : world.disk.Solid world.disk.here) (hsub : files.Sublist listing)
  (hscattered : vault.Scattered world.disk listing)
  (hkeeps : world.disk.Keeps vault.manifestPath)

include hv hroot hs hsub hscattered hkeeps

/-- **A batch that has taken a snapshot is undoable.** -/
theorem undoable_of_secured (hlasts : vault.sourceRoot.Lasts)
    (hprepared : List.Forall₂ (batch.Prepared world.disk) files prepared)
    (hflag : (world.run (batch.secure prepared)).1.1 = true)
    (hothers : ∀ path ∈ vault.paths listing, ∀ place,
      world.disk.destination path = some place → ¬ others place)
    (htouched : (world.run (batch.secure prepared)).2.disk.Touched later fun place =>
      WritePlace (world.run (batch.secure prepared)).2.disk
        (world.run (batch.secure prepared)).1.2 place ∨ others place) :
    ∃ manifest, batch.Undoable vault world.disk later listing manifest others := by
  have hsecured := run_secure hv world prepared
  generalize world.run (batch.secure prepared) = secured at hsecured hflag htouched
  cases hsecured with
  | nothing _ => cases hflag
  | failed _ => cases hflag
  | @copied manifest after h =>
    have hnotes := Vault.notes_of_run_snapshot (congrArg Prod.fst h)
    have hpending : (pendingFiles prepared).Sublist listing :=
      (pendingFiles_sublist_files hprepared).trans hsub
    have hsnapshot := (vault.snapshot_obeys world.disk (pendingFiles prepared)).touched hs
    rw [h] at hsnapshot
    have hdev : world.disk.Develops after.disk := hsnapshot.toDevelops
    have hwritten (place : Place)
        (hp : WritePlace after.disk (prepared.map (accept manifest)) place) :=
      entry_of_writePlace hprepared hroot hnotes.sublist hdev hp
    have hcopies : ∀ file ∈ pendingFiles prepared, ∀ place,
        world.disk.destination (vault.backupPath file) = some place →
          ¬ (WritePlace after.disk (prepared.map (accept manifest)) place ∨ others place) := by
      rintro file hf place hp (hwrite | hother)
      · obtain ⟨entry, -, hfile, hplace⟩ := hwritten place hwrite
        exact hscattered.source_backup _ (hsub.mem hfile) _ (hpending.mem hf) place hplace hp
      · refine hothers _ (List.mem_append_right _ (List.mem_append_left _ ?_)) place hp hother
        exact List.mem_map_of_mem (hpending.mem hf)
    have hisFile : ∀ file ∈ pendingFiles prepared,
        world.disk.isFile (vault.sourceRoot.under ⟨file⟩) = true :=
      fun _ hf => isFile_of_mem_pendingFiles hprepared hroot hf
    exact ⟨manifest, {
      onDisk := by
        refine htouched.read (Vault.run_snapshot_manifest hs hkeeps h) ?_
        rintro place hp (hwrite | hother)
        · obtain ⟨entry, -, hfile, hplace⟩ := hwritten place hwrite
          exact hscattered.source_manifest _ (hsub.mem hfile) place hplace
            (hdev.destination_eq _ ▸ hp)
        · exact hothers _ (by simp [Vault.paths]) place (hdev.destination_eq _ ▸ hp) hother
      root_eq := Vault.sourceRoot_of_run_snapshot h
      sublist := hnotes.sublist.trans hpending
      isFile := fun entry he => hisFile _ (hnotes.sublist.mem (List.mem_map_of_mem he))
      kept := fun entry he => (Vault.kept_of_snapshot hs (hscattered.sublist hpending) hlasts
        hisFile h htouched hcopies he).2
      touched := by
        refine (hsnapshot.mono ?_).trans (htouched.mono ?_)
        · rintro place (hmanifest | ⟨file, hf, hcopy⟩)
          · exact Or.inl (Or.inl hmanifest)
          · exact Or.inl (Or.inr ⟨file, hpending.mem hf, hcopy⟩)
        · rintro place (hwrite | hother)
          · obtain ⟨entry, he, -, hplace⟩ := hwritten place hwrite
            exact Or.inr (Or.inr ⟨entry, he, hplace⟩)
          · exact Or.inr (Or.inl hother) }⟩

/-- So is one whose files were prepared and secured. -/
theorem undoable_of_touched (hlasts : vault.sourceRoot.Lasts)
    (hothers : ∀ path ∈ vault.paths listing, ∀ place,
      world.disk.destination path = some place → ¬ others place)
    (hflag :
      let prepared := world.run (batch.prepareAll files)
      (prepared.2.run (batch.secure prepared.1)).1.1 = true)
    (htouched :
      let prepared := world.run (batch.prepareAll files)
      let secured := prepared.2.run (batch.secure prepared.1)
      secured.2.disk.Touched later fun place =>
        WritePlace secured.2.disk secured.1.2 place ∨ others place) :
    ∃ manifest, batch.Undoable vault world.disk later listing manifest others := by
  have hprepared := batch.prepareAll_prepared world files
  have hdisk := (batch.prepareAll_obeys files).disk_run world
  rw [← hdisk] at hs hscattered hkeeps hothers hprepared ⊢
  exact undoable_of_secured hv hroot hs hsub hscattered hkeeps hlasts hprepared hflag hothers
    htouched

end Sheltered

/-- It stays undoable while neither copies nor the manifest are written. -/
theorem Undoable.stays {others : Place → Prop} {now : Disk}
    (h : batch.Undoable vault disk now listing manifest others)
    (htouched : now.Touched later others)
    (hothers : ∀ path ∈ vault.paths listing, ∀ place,
      disk.destination path = some place → ¬ others place) :
    batch.Undoable vault disk later listing manifest others where
  onDisk := htouched.read h.onDisk fun place hp =>
    hothers _ (by simp [Vault.paths]) place (h.touched.destination_eq _ ▸ hp)
  root_eq := h.root_eq
  sublist := h.sublist
  isFile := h.isFile
  kept entry he := by
    obtain ⟨data, hkept⟩ := h.kept entry he
    have hmem : vault.backupPath entry.file ∈ vault.paths listing :=
      List.mem_append_right _ (List.mem_append_left _
        (List.mem_map_of_mem (h.sublist.mem (List.mem_map_of_mem he))))
    refine ⟨data, ⟨hkept.toRestorable.touched htouched fun place hp => ?_, hkept.source,
      hkept.size_eq, (htouched.destination_eq _).trans hkept.destination_eq,
      (htouched.destination_eq _).trans hkept.backup_eq⟩⟩
    exact hothers _ hmem place (hkept.backup_eq ▸ hp)
  touched := h.touched.trans (htouched.mono fun _ hp => Or.inr (Or.inl hp))

/-- **What is undoable is undone.**  The files elsewhere than in the vault are what they
were. -/
theorem Undoable.restored {host : Host} {others : Place → Prop}
    (h : batch.Undoable vault disk host.disk listing manifest others)
    (hs : disk.Solid disk.here) (hscattered : vault.Scattered disk listing)
    (hnodup : listing.Nodup) (hsizes : ∀ file ∈ listing, ∀ size,
      disk.size (vault.sourceRoot.under ⟨file⟩) = .ok size → size < Count.bound) :
    let restored := host.run vault.restoreLatest.attempt
    (∃ result, restored.1 = .ok result ∧ result.allRestored = true) ∧
      ∀ place, ¬ vault.SnapshotPlace disk listing place → ¬ others place →
        restored.2.disk.file? place = disk.file? place := by
  have hsized : manifest.Sized := by
    intro entry he
    obtain ⟨data, hkept⟩ := h.kept entry he
    rw [hkept.size_eq]
    exact hsizes _ (h.sublist.mem (List.mem_map_of_mem he)) _ (Disk.size_of_read hkept.source)
  have hrestorable := Vault.restorable_of_kept hscattered hnodup h.sublist h.kept
  rw [← h.root_eq] at hrestorable
  -- a plain host is a world that refuses nothing
  have hgrants : FallibleHost.Grants { host } := fun _ _ => rfl
  have hs' := h.touched.toDevelops.solid_here hs
  obtain ⟨result, after, hrun, -, hall, htouched, hreads⟩ :=
    Vault.run_restoreLatest hgrants hs' h.onDisk hsized (hrestorable.recoverable hs')
  obtain ⟨hresult, hhost⟩ := FallibleHost.run_of_never { host } (fun _ _ => rfl)
    vault.restoreLatest.attempt
  rw [hrun] at hresult hhost
  rw [h.root_eq] at htouched hreads
  intro restored
  refine ⟨⟨result, hresult.symm, hall⟩, fun place hvault hother => ?_⟩
  have hfinal : restored.2.disk = after.disk := congrArg Host.disk hhost.symm
  rw [hfinal]
  -- the files of the manifest are written back, and all others had not been written
  by_cases hfile : ∃ entry ∈ manifest.entries,
      disk.destination (vault.sourceRoot.under ⟨entry.file⟩) = some place
  · obtain ⟨entry, he, hp⟩ := hfile
    obtain ⟨data, hkept⟩ := h.kept entry he
    exact hkept.file?_eq htouched.toDevelops (h.isFile entry he)
      (hreads entry he data (hkept.toRestorable.recoverable hs')) hp
  · refine (htouched.file?_eq place ?_).trans (h.touched.file?_eq place ?_)
    · rintro ⟨entry, he, hp⟩
      obtain ⟨data, hkept⟩ := h.kept entry he
      exact hfile ⟨entry, he, hkept.destination_eq ▸ hp⟩
    · rintro (hp | hp | hp)
      · exact hvault hp
      · exact hother hp
      · exact hfile hp

/-! ### Runs -/

/-- A run whose report names a manifest is undoable. -/
theorem undoable_of_run (world : FallibleHost) (batch : Batch) (names : Names)
    (window : Window) (vault : Vault) (hv : batch.vault = some vault)
    (hroot : vault.sourceRoot = batch.root) (hlasts : vault.sourceRoot.Lasts)
    (hs : world.disk.Solid world.disk.here)
    (hapart : (vault.paths names.toList).Pairwise world.disk.Apart)
    (hkeeps : world.disk.Keeps vault.manifestPath)
    (hquiet : ∀ first stop gate, batch.gateAt? first stop = some gate →
      world.KeepsToLogs gate.job)
    (hlogs : ∀ path ∈ vault.paths names.toList, ∀ place,
      world.disk.destination path = some place →
        ¬ batch.LogPlace world.disk window.start
          (window.start + (window.of names.toList).length) place)
    (hmanifest : (world.run (batch.run names window)).1.backupManifest ≠ none) :
    ∃ manifest, batch.Undoable vault world.disk (world.run (batch.run names window)).2.disk
      names.toList manifest (batch.LogPlace world.disk window.start
        (window.start + (window.of names.toList).length)) := by
  have hsub : (window.of names.toList).Sublist names.toList := window.of_sublist names.toList
  obtain ⟨hreal, hflag⟩ := secured_of_backupManifest hmanifest
  exact undoable_of_touched hv hroot hs hsub (Vault.scattered_of_pairwise hapart) hkeeps hlasts
    hlogs hflag (@touched_after_secure world batch names window hreal hs hquiet)

theorem run_secure_of_nothing {prepared : List Progress} (h : pendingFiles prepared = []) :
    world.run (batch.secure prepared) = ((false, prepared), world) := by
  cases hv : batch.vault with
  | none => exact run_secure_of_none hv world prepared
  | some vault =>
    have hpending : prepared.filterMap Progress.pending? = [] := List.map_eq_nil_iff.1 h
    rw [secure, hv]
    dsimp only
    rw [hpending]
    rfl

/-- A run without anything to write takes no snapshot, and touches nothing but logs. -/
theorem touched_of_nothing_pending {names : Names} {window : Window}
    (hreal : batch.dryRun = false) (hs : world.disk.Solid world.disk.here)
    (hquiet : ∀ first stop gate, batch.gateAt? first stop = some gate →
      world.KeepsToLogs gate.job)
    (hnothing :
      pendingFiles (world.run (batch.prepareAll (window.of names.toList))).1 = []) :
    (world.run (batch.run names window)).1.backupManifest = none ∧
      world.disk.Touched (world.run (batch.run names window)).2.disk
        (batch.LogPlace world.disk window.start
          (window.start + (window.of names.toList).length)) := by
  have hsecure := @run_secure_of_nothing (world.run (batch.prepareAll (window.of names.toList))).2
    batch _ hnothing
  have hdisk := (batch.prepareAll_obeys (window.of names.toList)).disk_run world
  refine ⟨?_, ?_⟩
  · by_contra hmanifest
    obtain ⟨-, hflag⟩ := secured_of_backupManifest hmanifest
    dsimp only at hflag
    rw [hsecure] at hflag
    cases hflag
  · have htouched := @touched_after_secure world batch names window hreal hs hquiet
    dsimp only at htouched
    rw [hsecure] at htouched
    dsimp only at htouched
    rw [hdisk] at htouched
    refine htouched.mono fun place hp => hp.resolve_left ?_
    rintro ⟨write, hw, -⟩
    have hmem := mem_pendingFiles.2 ⟨write, hw, rfl⟩
    rw [hnothing] at hmem
    cases hmem

end Batch

end

/-- **The last batch is undone.**  Whatever was run before, and whatever was refused then,
when the report of a batch names a manifest, a restore after it succeeds, and every file
outside the vault and the logs of the gate is what it was just before that batch. -/
theorem Batch.restoreLatest_undoes_run (world : FallibleHost) (batch : Batch) (files : Names)
    (window : Window) (vault : Vault) (hv : batch.vault = some vault)
    (hroot : vault.sourceRoot = batch.root) (hlasts : vault.sourceRoot.Lasts)
    (hs : world.disk.Solid world.disk.here)
    (hapart : (vault.paths files.toList).Pairwise world.disk.Apart)
    (hkeeps : world.disk.Keeps vault.manifestPath)
    (hsizes : ∀ file ∈ files.toList, ∀ size,
      world.disk.size (vault.sourceRoot.under ⟨file⟩) = .ok size → size < Count.bound)
    (hquiet : ∀ first stop gate, batch.gateAt? first stop = some gate →
      world.KeepsToLogs gate.job)
    (hlogs : ∀ path ∈ vault.paths files.toList, ∀ place,
      world.disk.destination path = some place →
        ¬ batch.LogPlace world.disk window.start
          (window.start + (window.of files.toList).length) place)
    (hmanifest : (world.run (batch.run files window)).1.backupManifest ≠ none) :
    let ran := (world.run (batch.run files window)).2
    let restored := ran.host.run vault.restoreLatest.attempt
    (∃ result, restored.1 = .ok result ∧ result.allRestored = true) ∧
      (∀ file ∈ files.toList, ∀ place,
        world.disk.destination (vault.sourceRoot.under ⟨file⟩) = some place →
          restored.2.disk.file? place = world.disk.file? place) ∧
      ∀ place, ¬ vault.SnapshotPlace world.disk files.toList place →
        ¬ batch.LogPlace world.disk window.start
          (window.start + (window.of files.toList).length) place →
          restored.2.disk.file? place = world.disk.file? place := by
  have hscattered := Vault.scattered_of_pairwise hapart
  obtain ⟨manifest, hundoable⟩ := undoable_of_run world batch files window vault hv hroot hlasts hs
    hapart hkeeps hquiet hlogs hmanifest
  obtain ⟨hresult, hfiles⟩ := hundoable.restored hs hscattered files.ascending.nodup hsizes
  refine ⟨hresult, fun file hf place hp => hfiles place ?_ ?_, hfiles⟩
  · exact hscattered.spared (List.Sublist.refl _) file hf place hp
  · exact hlogs _ (List.mem_append_left _ (List.mem_map_of_mem hf)) place hp

namespace Sample

/-- The small project before the first run. -/
def start : FallibleHost :=
  Sample.world fun _ => true

theorem lasts : vault.sourceRoot.Lasts :=
  fun _ => by decide

theorem sizes : ∀ file ∈ files.toList, ∀ size,
    start.disk.size (vault.sourceRoot.under ⟨file⟩) = .ok size → size < Count.bound := by
  have hsmall : ∀ file ∈ files.toList,
      start.disk.size (vault.sourceRoot.under ⟨file⟩) = .ok 1 := by
    decide +kernel
  intro file hf size hsize
  rw [hsmall file hf] at hsize
  cases hsize
  decide

theorem no_logs (world : FallibleHost) (start stop : Nat) (place : Place) :
    ¬ Sample.batch.LogPlace world.disk start stop place :=
  fun ⟨_, hgate, _⟩ => nomatch hgate

theorem wrote_manifest : (start.run (Sample.batch.run files ⟨0, 3⟩)).1.backupManifest ≠ none := by
  decide +kernel

theorem fixed_by_run : (start.run (Sample.batch.run files ⟨0, 3⟩)).2.disk.file? ["p", "a.css"] =
    some "var(--four)".toUTF8 := by
  decide +kernel

/-- A run that has fixed a file of the small project is undone. -/
theorem run_undone :
    (start.run (Sample.batch.run files ⟨0, 3⟩)).2.disk.file? ["p", "a.css"] =
        some "var(--four)".toUTF8 ∧
      ∀ file ∈ files.toList, ∀ place,
        start.disk.destination (vault.sourceRoot.under ⟨file⟩) = some place →
          ((start.run (Sample.batch.run files ⟨0, 3⟩)).2.host.run
            vault.restoreLatest.attempt).2.disk.file? place = start.disk.file? place :=
  ⟨fixed_by_run,
    (Batch.restoreLatest_undoes_run start Sample.batch files ⟨0, 3⟩ vault rfl rfl lasts solid apart
      keeps sizes (fun _ _ _ hgate => nomatch hgate) (fun _ _ _ _ => no_logs _ _ _ _)
      wrote_manifest).2.1⟩

/-- The second run on the small project has nothing to write. -/
theorem nothing_pending :
    Batch.pendingFiles ((start.run (Sample.batch.run files ⟨0, 3⟩)).2.run
      (Sample.batch.prepareAll (Window.of ⟨0, 3⟩ files.toList))).1 = [] := by
  decide +kernel

/-- **A batch without anything to fix is not the one that is undone**: the restore after it
undoes the batch before. -/
theorem earlier_run_undone :
    (start.run (Sample.batch.run files ⟨0, 3⟩)).2.disk.file? ["p", "a.css"] =
        some "var(--four)".toUTF8 ∧
      (((start.run (Sample.batch.run files ⟨0, 3⟩)).2.run
        (Sample.batch.run files ⟨0, 3⟩)).2.host.run
          vault.restoreLatest.attempt).2.disk.file? ["p", "a.css"] = some "4".toUTF8 := by
  have hquiet (world : FallibleHost) (first stop : Nat) (gate : Gate)
      (hgate : Sample.batch.gateAt? first stop = some gate) : world.KeepsToLogs gate.job :=
    nomatch hgate
  obtain ⟨manifest, hundoable⟩ := Batch.undoable_of_run start Sample.batch files ⟨0, 3⟩ vault rfl
    rfl lasts solid apart keeps (hquiet start) (fun _ _ _ _ => no_logs _ _ _ _) wrote_manifest
  obtain ⟨-, htouched⟩ := Batch.touched_of_nothing_pending rfl
    (hundoable.touched.toDevelops.solid_here solid) (hquiet _) nothing_pending
  have hstays := hundoable.stays (htouched.mono fun place hp => (no_logs _ _ _ _ hp).elim)
    fun _ _ _ _ => no_logs _ _ _ _
  obtain ⟨-, hfiles⟩ := hstays.restored solid (Vault.scattered_of_pairwise apart)
    files.ascending.nodup sizes
  refine ⟨fixed_by_run, (hfiles ["p", "a.css"] ?_ (no_logs _ _ _ _)).trans ?_⟩
  · decide +kernel
  · decide +kernel

end Sample

end StyleTokens

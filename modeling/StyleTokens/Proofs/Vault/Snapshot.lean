/-
What a snapshot leaves behind.

A snapshot writes to the places of its copies and of its manifest only.  When it
succeeds, the manifest is there and describes copies that hold the bytes of the
files, each as it was when the snapshot began.

* `MayPut` — a file may be put at a path, with the directories that lead to it;
* `Action.writeFile_eq` — a file is written once its directories are there;
* `snapshot_asks`, `snapshot_obeys` — what a snapshot asks, where it writes, and which
  files its manifest names;
* `Vault.Holds` — an entry that describes the copy of a file; `Vault.Copied` — one that does
  so even if the file could not be found at first;
* `run_snapshotOne_ok`, `run_copyAll` — files that were copied are described by their
  entries;
* `run_snapshot_manifest` — the manifest is on the disk;
* `run_snapshot_copied`, `run_snapshot_holds` — its entries describe the copies.

Design notes: that a copy is not lost again to the copy of another file depends on
the places of the copies being different (`Vault.Separates`).
-/
import StyleTokens.Proofs.World.Frame
import StyleTokens.Vault.Basic

namespace StyleTokens

variable {world after : FallibleHost} {path : Path} {data : ByteArray} {file : String}
  {vault : Vault} {disk : Disk} {places : Place → Prop} {may : Request → Prop}

/-! ### Writing with directories -/

/-- A file may be put at a path, and the directory that it needs. -/
structure MayPut (may : Request → Prop) (path : Path) : Prop where
  write : ∀ data, may (.write path data)
  above : ∀ parent, path.parent? = some parent → may (.makeDirectories parent)

theorem mayPut_within (hp : ∀ place, disk.destination path = some place → places place) :
    MayPut (Request.Within disk places) path :=
  ⟨fun _ => hp, fun _ _ => trivial⟩

namespace Action

theorem makeDirectories_obeys (places : Place → Prop) (path : Path) :
    (makeDirectories path).Obeys (Request.Within disk places) (fun _ => True) fun _ => True :=
  .ofIo_any (.request (.makeDirectories path) trivial)

/-- Makes the directories that a path needs. -/
def ready (path : Path) : Action Unit :=
  match path.parent? with
  | some parent => makeDirectories parent
  | none => pure ()

/-- A file is written once its directories are there. -/
theorem writeFile_eq (path : Path) (data : ByteArray) :
    writeFile path data = ready path >>= fun _ => ofIo (Script.request (.write path data)) := by
  rw [writeFile, ready]
  cases path.parent? <;> rfl

theorem ready_asks (h : ∀ parent, path.parent? = some parent → may (.makeDirectories parent)) :
    (ready path).Obeys may (fun _ => True) fun _ => True := by
  rw [ready]
  split
  · next parent hparent =>
    exact .ofIo_any (.request (.makeDirectories parent) (h parent hparent))
  · exact .pure trivial

theorem ready_obeys (places : Place → Prop) (path : Path) :
    (ready path).Obeys (Request.Within disk places) (fun _ => True) fun _ => True :=
  ready_asks fun _ _ => trivial

theorem writeFile_asks (h : MayPut may path) :
    (writeFile path data).Obeys may (fun _ => True) fun _ => True := by
  rw [writeFile_eq]
  exact .bind (ready_asks h.above) fun _ _ => .ofIo_any (.request (.write path data) (h.write data))

theorem writeFile_obeys (hp : ∀ place, disk.destination path = some place → places place) :
    (writeFile path data).Obeys (Request.Within disk places) (fun _ => True) fun _ => True :=
  writeFile_asks (mayPut_within hp)

/-- Whatever directories are made before, the write has the last word. -/
theorem exists_write_of_writeFile
    (h : world.run (writeFile path data).attempt = (.ok (), after)) :
    ∃ middle, world.run (ready path).attempt = (.ok (), middle) ∧
      middle.reply (.write path data) = (.ok (), after) := by
  rw [writeFile_eq] at h
  obtain ⟨_, middle, hready, hwrite⟩ := FallibleHost.run_action_bind_ok h
  exact ⟨middle, hready, FallibleHost.run_ofIo_ok hwrite⟩

/-- A file that was written can be read, unless a device has swallowed it. -/
theorem run_writeFile_ok (hs : world.disk.Solid world.disk.here)
    (h : world.run (writeFile path data).attempt = (.ok (), after)) :
    after.disk.read path = .ok data ∨
      after.disk.read path = .ok .empty ∧ ¬ world.disk.Keeps path := by
  obtain ⟨middle, hready, hreply⟩ := exists_write_of_writeFile h
  have htouched := Script.Obeys.touched (ready_obeys (fun _ => False) path) hs
  rw [hready] at htouched
  have hd : world.disk.Develops middle.disk := htouched.toDevelops
  have hwrite := FallibleHost.reply_write_ok (congrArg Prod.fst hreply)
  rw [hreply] at hwrite
  obtain ⟨-, hread | ⟨-, hread, hkeeps⟩⟩ := Disk.write_spec (hd.solid_here hs) hwrite
  · exact Or.inl hread
  · exact Or.inr ⟨hread, fun hk => hkeeps (hd.keeps_iff.2 hk)⟩

end Action

namespace Vault

/-! ### One copy -/

theorem writeCopy_asks (hreads : ∀ request : Request, request.Reads → may request)
    (h : MayPut may path) :
    (writeCopy path data file).Obeys may (fun _ => True) fun _ => True := by
  unfold writeCopy
  refine .bind (Action.writeFile_asks h) fun _ _ => ?_
  refine .bind (.ofIo_any (.request (.size path) (hreads _ trivial))) fun written _ => ?_
  split
  · exact .throw trivial
  · exact .pure trivial

/-- A copy that was written holds all of its bytes. -/
theorem run_writeCopy_ok (hs : world.disk.Solid world.disk.here)
    (h : world.run (writeCopy path data file).attempt = (.ok (), after)) :
    after.disk.read path = .ok data := by
  unfold writeCopy at h
  obtain ⟨_, middle, hwrite, h⟩ := FallibleHost.run_action_bind_ok h
  obtain ⟨written, last, hsize, h⟩ := FallibleHost.run_action_bind_ok h
  have hreply : middle.reply (.size path) = (.ok written, last) := FallibleHost.run_ofIo_ok hsize
  have hlast : last.disk = middle.disk := FallibleHost.disk_eq_of_reply hreply trivial
  have hwritten := FallibleHost.reply_size_ok (congrArg Prod.fst hreply)
  split at h
  · cases h
  · next heq =>
    obtain rfl : last = after := congrArg Prod.snd h
    rw [hlast]
    rcases Action.run_writeFile_ok hs hwrite with hread | ⟨hread, -⟩
    · exact hread
    · -- a device has no bytes, so there were none to copy
      rw [Disk.size_of_read hread] at hwritten
      have hempty : data.size = 0 := by
        rw [← Decidable.not_not.1 heq]
        exact (Except.ok.inj hwritten).symm
      rw [hread, ByteArray.size_eq_zero_iff.1 hempty]

/-- A copy that is written, or fails to be, touches its own place only. -/
theorem touched_writeCopy (hs : world.disk.Solid world.disk.here) (path : Path)
    (data : ByteArray) (file : String) :
    world.disk.Touched (world.run (writeCopy path data file).attempt).2.disk
      (world.disk.destination path = some ·) :=
  Script.Obeys.touched (writeCopy_asks (fun _ h => h.within) (mayPut_within fun _ hp => hp)) hs

/-- The places of the copies of a file. -/
def CopyPlace (vault : Vault) (disk : Disk) (file : String) (place : Place) : Prop :=
  disk.destination (vault.backupPath file) = some place ∨
    disk.destination (vault.pristinePath file) = some place

instance (vault : Vault) (disk : Disk) (file : String) (place : Place) :
    Decidable (vault.CopyPlace disk file place) := by
  unfold CopyPlace
  infer_instance

theorem snapshotOne_asks (hreads : ∀ request : Request, request.Reads → may request)
    (hbackup : MayPut may (vault.backupPath file))
    (hpristine : MayPut may (vault.pristinePath file)) :
    (vault.snapshotOne file).Obeys may (fun entry => entry.file = file) fun _ => True := by
  unfold snapshotOne
  dsimp only
  refine .bind (.ofIo_any (.request (.read _) (hreads _ trivial))) fun data _ => ?_
  refine .bind (writeCopy_asks hreads hbackup) fun _ _ => ?_
  refine .bind (.lift (.request (.isFile _) (hreads _ trivial))) fun there _ => ?_
  split
  · exact .bind (writeCopy_asks hreads hpristine) fun _ _ => .pure rfl
  · exact .pure rfl

theorem snapshotOne_obeys (vault : Vault) (disk : Disk) (file : String) :
    (vault.snapshotOne file).Obeys (Request.Within disk (vault.CopyPlace disk file))
      (fun entry => entry.file = file) fun _ => True :=
  snapshotOne_asks (fun _ h => h.within) (mayPut_within fun _ hp => Or.inl hp)
    (mayPut_within fun _ hp => Or.inr hp)

/-- An entry that describes the copy of a file.  The file is looked at on the first disk,
and the copy on the second. -/
structure Holds (vault : Vault) (before now : Disk) (entry : BackupEntry) (data : ByteArray) :
    Prop where
  backup_eq : entry.backup = (vault.backupPath entry.file).plain
  size_eq : entry.size = data.size
  sha256_eq : entry.sha256 = Sha256.hex data
  source : before.read (vault.sourceRoot.under ⟨entry.file⟩) = .ok data
  copy : now.read (vault.backupPath entry.file) = .ok data

/-- The steps in which a file was copied: it was read, its copy was written, and so was the
pristine one if it was to be. -/
structure Steps (vault : Vault) (world after : FallibleHost) (file : String)
    (entry : BackupEntry) (data : ByteArray) (copied asked : FallibleHost) (there : Bool) :
    Prop where
  entry_eq : entry = {
    file, backup := (vault.backupPath file).plain, size := data.size, sha256 := Sha256.hex data
    pristine := some (vault.pristinePath file).plain }
  source : world.disk.read (vault.sourceRoot.under ⟨file⟩) = .ok data
  known : ∃ known : FallibleHost, known.disk = world.disk ∧
    known.run (writeCopy (vault.backupPath file) data file).attempt = (.ok (), copied)
  looked : copied.reply (.isFile (vault.pristinePath file)) = (there, asked)
  pristine : if vault.refresh || !there then
      asked.run (writeCopy (vault.pristinePath file) data file).attempt = (.ok (), after)
    else asked = after

/-- A file that was copied went through these steps. -/
theorem exists_steps {entry : BackupEntry}
    (h : world.run (vault.snapshotOne file).attempt = (.ok entry, after)) :
    ∃ data copied asked there, vault.Steps world after file entry data copied asked there := by
  unfold snapshotOne at h
  dsimp only at h
  obtain ⟨data, known, hread, h⟩ := FallibleHost.run_action_bind_ok h
  obtain ⟨_, copied, hcopy, h⟩ := FallibleHost.run_action_bind_ok h
  obtain ⟨there, asked, hasked, h⟩ := FallibleHost.run_action_bind_ok h
  -- the file is read from the disk as it is at first
  have hreply : world.reply (.read (vault.sourceRoot.under ⟨file⟩)) = (.ok data, known) :=
    FallibleHost.run_ofIo_ok hread
  have hlooked : copied.reply (.isFile (vault.pristinePath file)) = (there, asked) := by
    rw [FallibleHost.run_action_lift] at hasked
    cases hasked
    rfl
  refine ⟨data, copied, asked, there, ?_⟩
  -- the plain forms and the hash are named, so that nothing computes them
  generalize hplain : (vault.backupPath file).plain = backup at h
  generalize hpristine : (vault.pristinePath file).plain = first at h
  generalize hsha : Sha256.hex data = sha at h
  have hmade : entry = ⟨file, backup, data.size, sha, some first⟩ ∧
      if vault.refresh || !there then
        asked.run (writeCopy (vault.pristinePath file) data file).attempt = (.ok (), after)
      else asked = after := by
    split at h
    · next hrenew =>
      rw [if_pos hrenew]
      obtain ⟨_, last, hlast, h⟩ := FallibleHost.run_action_bind_ok h
      cases h
      exact ⟨rfl, hlast⟩
    · next hkeep =>
      rw [if_neg hkeep]
      cases h
      exact ⟨rfl, rfl⟩
  exact {
    entry_eq := by rw [hmade.1, hplain, hpristine, hsha]
    source := FallibleHost.reply_read_ok (congrArg Prod.fst hreply)
    known := ⟨known, FallibleHost.disk_eq_of_reply hreply trivial, hcopy⟩
    looked := hlooked
    pristine := hmade.2 }

/-- The copy is there before the pristine one is looked for. -/
theorem Steps.asked {entry : BackupEntry} {copied asked : FallibleHost} {there : Bool}
    (h : vault.Steps world after file entry data copied asked there)
    (hs : world.disk.Solid world.disk.here) :
    world.disk.Develops asked.disk ∧ asked.disk.read (vault.backupPath file) = .ok data := by
  obtain ⟨known, hknown, hcopy⟩ := h.known
  have hasked : asked.disk = copied.disk := FallibleHost.disk_eq_of_reply h.looked trivial
  have hs' : known.disk.Solid known.disk.here := hknown ▸ hs
  have htouched := touched_writeCopy hs' (vault.backupPath file) data file
  rw [hcopy, hknown] at htouched
  rw [hasked]
  exact ⟨htouched.toDevelops, run_writeCopy_ok hs' hcopy⟩

/-- **A file that was copied is held by its entry**, unless the pristine copy is written
in place of the other one. -/
theorem run_snapshotOne_ok {entry : BackupEntry} (hs : world.disk.Solid world.disk.here)
    (hapart : world.disk.Apart (vault.backupPath file) (vault.pristinePath file))
    (h : world.run (vault.snapshotOne file).attempt = (.ok entry, after)) :
    entry.file = file ∧ ∃ data, vault.Holds world.disk after.disk entry data := by
  obtain ⟨data, copied, asked, there, hsteps⟩ := exists_steps h
  obtain ⟨hdev, hbackup⟩ := hsteps.asked hs
  obtain rfl := hsteps.entry_eq
  refine ⟨rfl, data, rfl, rfl, rfl, hsteps.source, ?_⟩
  have hlast := hsteps.pristine
  split at hlast
  · -- the pristine copy lies elsewhere
    have hkept := touched_writeCopy (hdev.solid_here hs) (vault.pristinePath file) data file
    rw [hlast] at hkept
    exact hkept.read hbackup fun place hp hp' => hapart.congr hdev.destination_eq place hp hp'
  · exact hlast ▸ hbackup

/-! ### All copies -/

/-- What is noted of files that were to be copied: the files with entries stand in order,
and a file without an entry has a failure. -/
structure Notes (files : List String) (entries : List BackupEntry)
    (failures : List BackupFailure) : Prop where
  sublist : (entries.map (·.file)).Sublist files
  noted : ∀ file ∈ files, file ∈ entries.map (·.file) ∨ file ∈ failures.map (·.file)

theorem copyAll_asks (hreads : ∀ request : Request, request.Reads → may request)
    {files : List String} (h : ∀ file ∈ files,
      MayPut may (vault.backupPath file) ∧ MayPut may (vault.pristinePath file)) :
    (vault.copyAll files).Obeys may fun copied => Notes files copied.1 copied.2 := by
  induction files with
  | nil => exact .pure ⟨.slnil, by simp⟩
  | cons file others ih =>
    obtain ⟨hbackup, hpristine⟩ := h file List.mem_cons_self
    have hfile : (vault.snapshotOne file).Obeys may (fun entry => entry.file = file)
        fun _ => True :=
      snapshotOne_asks hreads hbackup hpristine
    have hothers := ih fun other ho => h other (List.mem_cons_of_mem _ ho)
    refine .bind hfile fun copied hcopied => .bind hothers fun (entries, failures) hnotes => ?_
    cases copied with
    | ok entry =>
      have hentry : entry.file = file := hcopied
      refine .pure ⟨?_, fun other ho => ?_⟩
      · rw [List.map_cons, hentry]
        exact hnotes.sublist.cons_cons _
      · rw [List.map_cons, hentry]
        rcases List.mem_cons.1 ho with rfl | ho
        · exact Or.inl List.mem_cons_self
        · exact (hnotes.noted other ho).imp_left (List.mem_cons_of_mem _)
    | error fault =>
      refine .pure ⟨hnotes.sublist.cons _, fun other ho => ?_⟩
      rcases List.mem_cons.1 ho with rfl | ho
      · exact Or.inr List.mem_cons_self
      · exact (hnotes.noted other ho).imp_right (List.mem_cons_of_mem _)

theorem copyAll_obeys (vault : Vault) (disk : Disk) (files : List String) :
    (vault.copyAll files).Obeys
      (Request.Within disk fun place => ∃ file ∈ files, vault.CopyPlace disk file place)
      fun copied => Notes files copied.1 copied.2 :=
  copyAll_asks (fun _ h => h.within) fun file hf =>
    ⟨mayPut_within fun _ hp => ⟨file, hf, Or.inl hp⟩,
      mayPut_within fun _ hp => ⟨file, hf, Or.inr hp⟩⟩

/-- The copies of files that do not get in each other's way, nor in that of the files. -/
structure Separates (vault : Vault) (disk : Disk) (files : List String) : Prop where
  own : ∀ file ∈ files, disk.Apart (vault.backupPath file) (vault.pristinePath file)
  others : files.Pairwise fun file other => ∀ place,
    disk.destination (vault.backupPath file) = some place → ¬ vault.CopyPlace disk other place
  sources : ∀ file ∈ files, ∀ other ∈ files, ∀ place,
    disk.destination (vault.sourceRoot.under ⟨file⟩) = some place →
      ¬ vault.CopyPlace disk other place

theorem copyPlace_congr {later : Disk} (h : disk.Develops later) {file : String} {place : Place} :
    vault.CopyPlace later file place ↔ vault.CopyPlace disk file place := by
  rw [CopyPlace, CopyPlace, h.destination_eq, h.destination_eq]

theorem Separates.tail {later : Disk} {others : List String}
    (hsep : vault.Separates disk (file :: others)) (h : disk.Develops later) :
    vault.Separates later others where
  own other ho := (hsep.own other (List.mem_cons_of_mem _ ho)).congr h.destination_eq
  others := (List.pairwise_cons.1 hsep.others).2.imp fun hpair place hp hcopy =>
    hpair place (h.destination_eq _ ▸ hp) ((copyPlace_congr h).1 hcopy)
  sources first hf second hs place hp hcopy :=
    hsep.sources first (List.mem_cons_of_mem _ hf) second (List.mem_cons_of_mem _ hs) place
      (h.destination_eq _ ▸ hp) ((copyPlace_congr h).1 hcopy)

theorem run_copyAll_cons (world : FallibleHost) (vault : Vault) (file : String)
    (others : List String) :
    world.run (vault.copyAll (file :: others)) =
      let copied := world.run (vault.snapshotOne file).attempt
      let rest := copied.2.run (vault.copyAll others)
      (match copied.1 with
        | .ok entry => (entry :: rest.1.1, rest.1.2)
        | .error fault => (rest.1.1, ⟨file, fault.message⟩ :: rest.1.2), rest.2) := by
  rw [copyAll, FallibleHost.run_bind, FallibleHost.run_bind]
  dsimp only
  cases (world.run (vault.snapshotOne file).attempt).1 <;> rfl

/-- An entry that describes the copy of a file whose bytes are known, be its way there at
first or only later. -/
structure Copied (vault : Vault) (before now : Disk) (entry : BackupEntry) (data : ByteArray) :
    Prop where
  backup_eq : entry.backup = (vault.backupPath entry.file).plain
  size_eq : entry.size = data.size
  sha256_eq : entry.sha256 = Sha256.hex data
  accepts : Disk.Accepts (vault.sourceRoot.under ⟨entry.file⟩)
  ends : Disk.EndsWithName (vault.sourceRoot.under ⟨entry.file⟩).stretches
  source : before.BytesAt (vault.sourceRoot.under ⟨entry.file⟩) data
  copy : now.read (vault.backupPath entry.file) = .ok data

theorem Holds.copied {later : Disk} {entry : BackupEntry} (hs : disk.Solid disk.here)
    (h : vault.Holds disk later entry data) : vault.Copied disk later entry data := by
  obtain ⟨place, found, hf, hentry⟩ := Disk.read_eq_ok_iff.1 h.source
  obtain ⟨haccepts, hwalk⟩ := Disk.find_eq_ok_iff.1 hf
  exact {
    backup_eq := h.backup_eq
    size_eq := h.size_eq
    sha256_eq := h.sha256_eq
    accepts := haccepts
    ends := hwalk.endsWithName (hs.origin _) (by rcases hentry with rfl | ⟨-, _, rfl⟩ <;> simp)
    source := Disk.bytesAt_of_read h.source
    copy := h.copy }

/-- A file that could be read at first is held by such an entry. -/
theorem Copied.holds {later : Disk} {entry : BackupEntry} {old : ByteArray}
    (h : vault.Copied disk later entry data)
    (hread : disk.read (vault.sourceRoot.under ⟨entry.file⟩) = .ok old) :
    vault.Holds disk later entry data where
  backup_eq := h.backup_eq
  size_eq := h.size_eq
  sha256_eq := h.sha256_eq
  source := by rwa [h.source.unique (Disk.bytesAt_of_read hread)]
  copy := h.copy

/-- **All entries describe the copies of their files**, as these were at first. -/
theorem run_copyAll (vault : Vault) {files : List String} (hs : world.disk.Solid world.disk.here)
    (hsep : vault.Separates world.disk files) :
    ∀ entry ∈ (world.run (vault.copyAll files)).1.1, ∃ data,
      vault.Copied world.disk (world.run (vault.copyAll files)).2.disk entry data := by
  induction files generalizing world with
  | nil => exact fun entry he => nomatch he
  | cons file others ih =>
    rw [run_copyAll_cons]
    have htouched := Script.Obeys.touched (vault.snapshotOne_obeys world.disk file) hs
    have hcopied := @run_snapshotOne_ok world (world.run (vault.snapshotOne file).attempt).2 file
      vault
    generalize world.run (vault.snapshotOne file).attempt = first at htouched hcopied ⊢
    obtain ⟨copied, next⟩ := first
    dsimp only at htouched hcopied ⊢
    have hs' := htouched.solid_here hs
    have hrest := ih hs' (hsep.tail htouched.toDevelops)
    have hnotes : Notes others (next.run (vault.copyAll others)).1.1
        (next.run (vault.copyAll others)).1.2 :=
      (vault.copyAll_obeys next.disk others).result
    have htouched' := Script.Obeys.touched (vault.copyAll_obeys next.disk others) hs'
    generalize next.run (vault.copyAll others) = rest at hrest hnotes htouched' ⊢
    obtain ⟨⟨entries, failures⟩, last⟩ := rest
    dsimp only at hrest hnotes htouched' ⊢
    -- the files of the rest were the same at first, since the copies lie elsewhere
    have hothers : ∀ entry ∈ entries, ∃ data, vault.Copied world.disk last.disk entry data := by
      intro entry he
      obtain ⟨data, hentry⟩ := hrest entry he
      have hmem : entry.file ∈ others := hnotes.sublist.mem (List.mem_map_of_mem he)
      refine ⟨data, { hentry with source := (htouched.bytesAt_iff ?_).1 hentry.source }⟩
      exact hsep.sources _ (List.mem_cons_of_mem _ hmem) file List.mem_cons_self
    cases copied with
    | error fault => exact hothers
    | ok entry =>
      intro other ho
      rcases List.mem_cons.1 ho with rfl | ho
      · obtain ⟨rfl, data, hholds⟩ := hcopied hs (hsep.own _ List.mem_cons_self) rfl
        -- later copies lie elsewhere
        refine ⟨data, { hholds.copied hs with
          copy := htouched'.read hholds.copy fun place hp => ?_ }⟩
        rintro ⟨later, hl, hcopy⟩
        rw [htouched.destination_eq] at hp
        exact (List.pairwise_cons.1 hsep.others).1 later hl place hp
          ((copyPlace_congr htouched.toDevelops).1 hcopy)
      · exact hothers other ho

/-! ### The manifest -/

/-- The places that a snapshot of some files may write at. -/
def SnapshotPlace (vault : Vault) (disk : Disk) (files : List String) (place : Place) : Prop :=
  disk.destination vault.manifestPath = some place ∨
    ∃ file ∈ files, vault.CopyPlace disk file place

instance (vault : Vault) (disk : Disk) (files : List String) (place : Place) :
    Decidable (vault.SnapshotPlace disk files place) := by
  unfold SnapshotPlace
  infer_instance

theorem snapshot_asks (hreads : ∀ request : Request, request.Reads → may request)
    {files : List String} (h : ∀ file ∈ files,
      MayPut may (vault.backupPath file) ∧ MayPut may (vault.pristinePath file))
    (hmanifest : MayPut may vault.manifestPath) :
    (vault.snapshot files).Obeys may
      (fun manifest => Notes files manifest.entries manifest.failures) fun _ => True := by
  have hsave (manifest : Manifest) : (manifest.save vault.manifestPath).Obeys may
      (fun _ => True) fun _ => True :=
    Action.writeFile_asks hmanifest
  refine .bind (.lift (copyAll_asks hreads h)) fun (entries, failures) hnotes => ?_
  refine .bind (.lift (.request .now (hreads _ trivial))) fun createdAt _ => ?_
  exact .bind (hsave _) fun _ _ => .pure hnotes

theorem snapshot_obeys (vault : Vault) (disk : Disk) (files : List String) :
    (vault.snapshot files).Obeys (Request.Within disk (vault.SnapshotPlace disk files))
      (fun manifest => Notes files manifest.entries manifest.failures) fun _ => True :=
  snapshot_asks (fun _ h => h.within)
    (fun file hf => ⟨mayPut_within fun _ hp => Or.inr ⟨file, hf, Or.inl hp⟩,
      mayPut_within fun _ hp => Or.inr ⟨file, hf, Or.inr hp⟩⟩)
    (mayPut_within fun _ hp => Or.inl hp)

/-- What the manifest of a snapshot that succeeded notes. -/
theorem notes_of_run_snapshot {files : List String} {manifest : Manifest}
    (h : (world.run (vault.snapshot files).attempt).1 = .ok manifest) :
    Notes files manifest.entries manifest.failures := by
  have hnotes : Outcome (fun manifest => Notes files manifest.entries manifest.failures)
      (fun _ => True) (world.run (vault.snapshot files).attempt).1 :=
    (vault.snapshot_obeys world.disk files).result
  rwa [h] at hnotes

/-- A snapshot that succeeds copies the files, and then writes the manifest. -/
theorem run_snapshot_ok {files : List String} {manifest : Manifest}
    (h : world.run (vault.snapshot files).attempt = (.ok manifest, after)) :
    ∃ next : FallibleHost, next.disk = (world.run (vault.copyAll files)).2.disk ∧
      manifest.entries = (world.run (vault.copyAll files)).1.1 ∧
      manifest.failures = (world.run (vault.copyAll files)).1.2 ∧
      next.run (manifest.save vault.manifestPath).attempt = (.ok (), after) := by
  unfold snapshot at h
  obtain ⟨⟨entries, failures⟩, copied, hcopied, h⟩ := FallibleHost.run_action_bind_ok h
  obtain ⟨createdAt, stamped, hstamped, h⟩ := FallibleHost.run_action_bind_ok h
  obtain ⟨_, last, hsaved, hdone⟩ := FallibleHost.run_action_bind_ok h
  rw [FallibleHost.run_action_lift] at hcopied hstamped
  rw [FallibleHost.run_action_pure] at hdone
  obtain ⟨hnotes, rfl⟩ := Prod.mk.inj hcopied
  obtain ⟨-, rfl⟩ := Prod.mk.inj hstamped
  obtain ⟨hmanifest, rfl⟩ := Prod.mk.inj hdone
  cases hmanifest
  rw [Except.ok.inj hnotes]
  have hnow : Request.Reads .now := trivial
  exact ⟨_, FallibleHost.disk_reply_of_reads _ hnow, rfl, rfl, hsaved⟩

/-- A snapshot that succeeds notes the plain form of the root. -/
theorem sourceRoot_of_run_snapshot
    (h : world.run (vault.snapshot files).attempt = (.ok manifest, after)) :
    manifest.sourceRoot = vault.sourceRoot.plain := by
  unfold snapshot at h
  obtain ⟨⟨entries, failures⟩, copied, hcopied, h⟩ := FallibleHost.run_action_bind_ok h
  obtain ⟨createdAt, stamped, hstamped, h⟩ := FallibleHost.run_action_bind_ok h
  obtain ⟨_, last, hsaved, hdone⟩ := FallibleHost.run_action_bind_ok h
  rw [FallibleHost.run_action_pure] at hdone
  obtain ⟨hmanifest, -⟩ := Prod.mk.inj hdone
  cases hmanifest
  rfl

/-- The manifest of a snapshot that succeeded is on the disk. -/
theorem run_snapshot_manifest {files : List String} {manifest : Manifest}
    (hs : world.disk.Solid world.disk.here) (hkeeps : world.disk.Keeps vault.manifestPath)
    (h : world.run (vault.snapshot files).attempt = (.ok manifest, after)) :
    after.disk.read vault.manifestPath = .ok manifest.toJson.pretty.toUTF8 := by
  obtain ⟨next, hnext, -, -, hsave⟩ := run_snapshot_ok h
  have hdev : world.disk.Develops next.disk := by
    rw [hnext]
    exact (Script.Obeys.touched (vault.copyAll_obeys world.disk files) hs).toDevelops
  rcases Action.run_writeFile_ok (hdev.solid_here hs) hsave with hread | ⟨-, hswallowed⟩
  · exact hread
  · exact absurd (hdev.keeps_iff.2 hkeeps) hswallowed

/-- **The entries of the manifest describe the copies of their files**, as these were at
first. -/
theorem run_snapshot_copied {files : List String} {manifest : Manifest}
    (hs : world.disk.Solid world.disk.here) (hsep : vault.Separates world.disk files)
    (hmanifest : ∀ file ∈ files, world.disk.Apart (vault.backupPath file) vault.manifestPath)
    (h : world.run (vault.snapshot files).attempt = (.ok manifest, after)) :
    ∀ entry ∈ manifest.entries, ∃ data, vault.Copied world.disk after.disk entry data := by
  obtain ⟨next, hnext, hentries, -, hsave⟩ := run_snapshot_ok h
  have htouched := Script.Obeys.touched (vault.copyAll_obeys world.disk files) hs
  have hnotes : Notes files (world.run (vault.copyAll files)).1.1
      (world.run (vault.copyAll files)).1.2 :=
    (vault.copyAll_obeys world.disk files).result
  intro entry he
  rw [hentries] at he
  obtain ⟨data, hcopied⟩ := run_copyAll vault hs hsep entry he
  rw [← hnext] at htouched hcopied
  have hmem : entry.file ∈ files := hnotes.sublist.mem (List.mem_map_of_mem he)
  -- the manifest is written elsewhere
  have hs' := htouched.solid_here hs
  have hsaved : next.disk.Touched (next.run (manifest.save vault.manifestPath).attempt).2.disk
      (next.disk.destination vault.manifestPath = some ·) :=
    Script.Obeys.touched (Action.writeFile_obeys fun _ hp => hp) hs'
  rw [hsave] at hsaved
  exact ⟨data, { hcopied with
    copy := hsaved.read hcopied.copy fun place hp hp' =>
      (hmanifest entry.file hmem).congr htouched.destination_eq place hp hp' }⟩

/-- They hold files that could be read at first. -/
theorem run_snapshot_holds {files : List String} {manifest : Manifest}
    (hs : world.disk.Solid world.disk.here) (hsep : vault.Separates world.disk files)
    (hmanifest : ∀ file ∈ files, world.disk.Apart (vault.backupPath file) vault.manifestPath)
    (hread : ∀ file ∈ files, ∃ data, world.disk.read (vault.sourceRoot.under ⟨file⟩) = .ok data)
    (h : world.run (vault.snapshot files).attempt = (.ok manifest, after)) :
    ∀ entry ∈ manifest.entries, ∃ data, vault.Holds world.disk after.disk entry data := by
  intro entry he
  obtain ⟨data, hcopied⟩ := run_snapshot_copied hs hsep hmanifest h entry he
  have hmem : entry.file ∈ files :=
    (notes_of_run_snapshot (congrArg Prod.fst h)).sublist.mem (List.mem_map_of_mem he)
  obtain ⟨old, hold⟩ := hread entry.file hmem
  exact ⟨data, hcopied.holds hold⟩

end Vault

end StyleTokens

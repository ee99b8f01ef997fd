/-
Pristine copies in the course of time.

Files are copied by many vaults, time and again; in between, copies are restored, and the
files change.  Whatever fails, a pristine copy is written once: it holds the bytes of the
first snapshot that wrote it, until a snapshot that refreshes lists its file.

* `Original` — a file that is copied, with the places of its copies; `Distinct` — files whose
  copies are not in each other's way;
* `Episode` — a snapshot, a restore or a change by others; `FallibleHost.through` — a world
  after some episodes;
* `Episode.Fits` — an episode that concerns the files only, and a change that leaves their
  pristine copies alone (`fits_change`);
* `Fits.next` — what one episode makes of the pristine copies; `Fitting.hasFile` and
  `Fitting.first` — what any number of them does;
* `pristine_writeOnce` — pristine copies are written once.

Design notes: a restore writes to the paths that its manifest names, so these must be no
pristine copy's, like those of the files.  The manifests of the vaults are so
(`fits_restore_of_snapshot`).  A write that fails leaves no part of a copy behind
(`FallibleHost.reply`).
-/
import StyleTokens.Proofs.Vault.Pristine
import StyleTokens.Proofs.Vault.Return

namespace StyleTokens

/-! ### Files and their copies -/

/-- A file that is copied: the root that it lies below, the root of its copies and its name. -/
structure Original where
  sourceRoot : Path
  backupRoot : Path
  file : String
  deriving DecidableEq

namespace Original

/-- The vault of the file. -/
def vault (original : Original) : Vault :=
  ⟨original.sourceRoot, original.backupRoot, false⟩

/-- Where the file is. -/
def source (original : Original) : Path :=
  original.sourceRoot.under ⟨original.file⟩

/-- Where its copy is. -/
def backup (original : Original) : Path :=
  original.vault.backupPath original.file

/-- Where its first copy is. -/
def pristine (original : Original) : Path :=
  original.vault.pristinePath original.file

end Original

/-- A file of a vault. -/
def Vault.original (vault : Vault) (file : String) : Original :=
  ⟨vault.sourceRoot, vault.backupRoot, file⟩

section Originals

variable (vault : Vault) (file : String)

@[simp]
theorem Vault.source_original :
    (vault.original file).source = vault.sourceRoot.under ⟨file⟩ := rfl

@[simp]
theorem Vault.backup_original : (vault.original file).backup = vault.backupPath file := rfl

@[simp]
theorem Vault.pristine_original :
    (vault.original file).pristine = vault.pristinePath file := rfl

end Originals

/-- A path that leads to no pristine copy. -/
def Avoids (originals : List Original) (disk : Disk) (path : Path) : Prop :=
  ∀ original ∈ originals, disk.Apart path original.pristine

instance (originals : List Original) (disk : Disk) (path : Path) :
    Decidable (Avoids originals disk path) :=
  inferInstanceAs (Decidable (∀ original ∈ originals, disk.Apart path original.pristine))

/-- Files and copies that are not in each other's way. -/
structure Distinct (originals : List Original) (disk : Disk) : Prop where
  solid : disk.Solid disk.here
  pristines : ∀ original ∈ originals, ∀ other ∈ originals, original ≠ other →
    disk.Apart original.pristine other.pristine
  backups : ∀ original ∈ originals, Avoids originals disk original.backup
  sources : ∀ original ∈ originals, Avoids originals disk original.source
  source_backup : ∀ original ∈ originals, ∀ other ∈ originals,
    disk.Apart original.source other.backup

section

variable {originals : List Original} {original : Original} {disk later : Disk}
  {world : FallibleHost} {vault : Vault} {files : List String} {file : String}

theorem Avoids.congr {path : Path} (h : Avoids originals disk path)
    (hd : ∀ path, later.destination path = disk.destination path) : Avoids originals later path :=
  fun original ho => (h original ho).congr hd

namespace Distinct

theorem congr (h : Distinct originals disk) (hs : later.Solid later.here)
    (hd : ∀ path, later.destination path = disk.destination path) :
    Distinct originals later where
  solid := hs
  pristines original ho other ho' hne := (h.pristines original ho other ho' hne).congr hd
  backups original ho := (h.backups original ho).congr hd
  sources original ho := (h.sources original ho).congr hd
  source_backup original ho other ho' := (h.source_backup original ho other ho').congr hd

theorem develops (h : Distinct originals disk) (hdev : disk.Develops later) :
    Distinct originals later :=
  h.congr (hdev.solid_here h.solid) hdev.destination_eq

/-- The copies of another file are elsewhere. -/
theorem not_copyPlace (h : Distinct originals disk) (ho : original ∈ originals)
    (hf : vault.original file ∈ originals) (hne : vault.original file ≠ original) {place : Place}
    (hp : disk.destination original.pristine = some place) :
    ¬ vault.CopyPlace disk file place := by
  have hbackup := h.backups _ hf original ho
  have hpristine := h.pristines _ hf original ho hne
  rw [Vault.backup_original] at hbackup
  rw [Vault.pristine_original] at hpristine
  rintro (hp' | hp')
  · exact hbackup place hp' hp
  · exact hpristine place hp' hp

/-- The pristine copy of a file is sheltered when files are copied. -/
theorem shelters (h : Distinct originals disk) (hf : vault.original file ∈ originals)
    (hfiles : ∀ other ∈ files, vault.original other ∈ originals) :
    vault.Shelters disk file files := by
  constructor
  case own => simpa using h.backups _ hf _ hf
  case others =>
    intro other ho hne place hp
    rw [← Vault.pristine_original] at hp
    exact h.not_copyPlace hf (hfiles other ho) (fun heq => hne (congrArg Original.file heq)) hp
  case source =>
    intro other ho place hp
    have hbackup := h.source_backup _ hf _ (hfiles other ho)
    have hpristine := h.sources _ hf _ (hfiles other ho)
    rw [Vault.source_original] at hbackup hpristine
    rw [Vault.backup_original] at hbackup
    rw [Vault.pristine_original] at hpristine
    rintro (hp' | hp')
    · exact hbackup place hp hp'
    · exact hpristine place hp hp'

end Distinct

/-! ### Restores -/

namespace Manifest

theorem restoreAll_obeys (root : Path) (disk : Disk) (entries : List BackupEntry) :
    (restoreAll root entries).Obeys (Request.Within disk (FilePlace root disk entries))
      fun _ => True := by
  have hpart (part : List BackupEntry) (hpart : ∀ entry ∈ part, entry ∈ entries) :
      (restoreAll root part).Obeys (Request.Within disk (FilePlace root disk entries))
        fun _ => True := by
    induction part with
    | nil => exact .pure trivial
    | cons entry part ih =>
      obtain ⟨hentry, hrest⟩ := List.forall_mem_cons.1 hpart
      have hone : (entry.restore root).Obeys (Request.Within disk (FilePlace root disk entries))
          (fun _ => True) fun _ => True :=
        entry.restore_asks (fun _ h => h.within) (mayPut_within fun _ hp => ⟨entry, hentry, hp⟩)
      exact .bind hone fun _ _ => .bind (ih hrest) fun _ _ => .pure trivial
  exact hpart entries fun _ h => h

/-- A restore touches the paths that its manifest names. -/
theorem touched_restore (manifest : Manifest) (hs : world.disk.Solid world.disk.here) :
    world.disk.Touched (world.run manifest.restore).2.disk
      (FilePlace ⟨manifest.sourceRoot⟩ world.disk manifest.entries) := by
  have hobeys : manifest.restore.Obeys (Request.Within world.disk
      (FilePlace ⟨manifest.sourceRoot⟩ world.disk manifest.entries)) fun _ => True :=
    .bind (restoreAll_obeys _ _ _) fun _ _ => .bind (.request .now trivial) fun _ _ =>
      .pure trivial
  exact hobeys.touched hs

theorem load_reads (path : Path) :
    (load path).Obeys Request.Reads (fun _ => True) fun _ => True := by
  have hpresent : (Action.ensurePresent path).Obeys Request.Reads (fun _ => True)
      fun _ => True := by
    refine .bind (.lift (.request (.present path) trivial)) fun there _ => ?_
    split
    · exact .throw trivial
    · exact .pure trivial
  have htext : (Action.readText path).Obeys Request.Reads (fun _ => True) fun _ => True :=
    .ofIo_any (Script.readText_obeys trivial)
  refine .bind hpresent fun _ _ => .bind htext fun text _ => .ofExcept ?_
  cases parse text <;> trivial

end Manifest

/-- Restoring the last snapshot touches the paths that the manifest names which is loaded. -/
theorem Vault.touched_restoreLatest (vault : Vault) (hs : world.disk.Solid world.disk.here) :
    world.disk.Touched (world.run vault.restoreLatest.attempt).2.disk fun place =>
      ∃ manifest, (world.run (Manifest.load vault.manifestPath).attempt).1 = .ok manifest ∧
        Manifest.FilePlace ⟨manifest.sourceRoot⟩ world.disk manifest.entries place := by
  have hload : (world.run (Manifest.load vault.manifestPath).attempt).2.disk = world.disk :=
    Script.Obeys.disk_run (Manifest.load_reads _) world
  rw [restoreLatest, FallibleHost.run_action_bind]
  generalize world.run (Manifest.load vault.manifestPath).attempt = loaded at hload ⊢
  obtain ⟨fault | manifest, next⟩ := loaded
  · dsimp only at hload ⊢
    rw [hload]
    exact .refl _ _
  · dsimp only at hload ⊢
    rw [FallibleHost.run_action_lift]
    rw [← hload] at hs ⊢
    exact (manifest.touched_restore hs).mono fun place hp => ⟨manifest, rfl, hp⟩

/-- The manifest of a snapshot names the files that were copied. -/
theorem Vault.avoids_of_snapshot {manifest : Manifest} (hlasts : vault.sourceRoot.Lasts)
    (h : (world.run (vault.snapshot files).attempt).1 = .ok manifest)
    (hfiles : ∀ file ∈ files, vault.original file ∈ originals) (hd : Distinct originals disk) :
    ∀ entry ∈ manifest.entries,
      Avoids originals disk (Path.under ⟨manifest.sourceRoot⟩ ⟨entry.file⟩) := by
  intro entry he original ho place hp
  have hmem := (notes_of_run_snapshot h).sublist.mem (List.mem_map_of_mem he)
  rw [sourceRoot_of_run_snapshot (Prod.ext h rfl), destination_under_plain hlasts] at hp
  exact hd.sources _ (hfiles entry.file hmem) original ho place hp

/-! ### Changes by others -/

namespace Disk

/-- No more than a file. -/
def Loose (found : Option Entry) : Prop :=
  found = none ∨ ∃ data, found = some (.file data)

/-- A disk and what has become of it when files at some places came, changed or went. -/
structure Reworked (disk later : Disk) (places : Place → Prop) : Prop where
  here : later.here = disk.here
  entry : ∀ place, later.entry? place = disk.entry? place ∨
    places place ∧ Loose ( disk.entry? place) ∧ Loose ( later.entry? place)

/-- A file where a path leads to is left as it is, and still found. -/
structure Leaves (disk later : Disk) (path : Path) : Prop where
  fileAt?_eq : later.fileAt? path = disk.fileAt? path
  isFile : disk.isFile path = true → later.isFile path = true

theorem Leaves.hasFile {path : Path} {data : ByteArray} (h : disk.Leaves later path)
    (hf : disk.HasFile path data) : later.HasFile path data :=
  hasFile_iff.2 ⟨h.isFile hf.isFile, h.fileAt?_eq.trans (hasFile_iff.1 hf).2⟩

variable {places : Place → Prop} {path : Path}

theorem Touched.leaves (h : disk.Touched later places)
    (hn : ∀ place, disk.destination path = some place → ¬ places place) :
    disk.Leaves later path :=
  ⟨h.fileAt?_eq hn, h.toDevelops.isFile⟩

namespace Reworked

theorem link?_eq (h : disk.Reworked later places) (place : Place) :
    later.link? place = disk.link? place := by
  rcases h.entry place with hsame | ⟨-, hold, hnew⟩
  · rw [link?, link?, hsame]
  · rcases hold with hold | ⟨_, hold⟩ <;> rcases hnew with hnew | ⟨_, hnew⟩ <;>
      rw [link?, link?, hold, hnew]

theorem destination_eq (h : disk.Reworked later places) (path : Path) :
    later.destination path = disk.destination path :=
  destination_congr h.link?_eq h.here path

/-- What is no file stays. -/
theorem entry_of_not_loose (h : disk.Reworked later places) {place : Place} {entry : Entry}
    (he : disk.entry? place = some entry) (hn : ∀ data, entry ≠ .file data) :
    later.entry? place = some entry := by
  rcases h.entry place with hsame | ⟨-, hold, -⟩
  · rw [hsame, he]
  · rw [he] at hold
    rcases hold with hold | ⟨data, hold⟩
    · cases hold
    · exact absurd (Option.some.inj hold) (hn data)

/-- A walk passes through directories and links, so it leads where it led. -/
theorem walk (h : disk.Reworked later places) {followLast : Bool} {links : Nat}
    {place target : Place} {pieces : List String} {entry : Entry}
    (hw : disk.Walk followLast links place pieces (.at target entry))
    (ht : later.entry? target = some entry) :
    later.Walk followLast links place pieces (.at target entry) := by
  generalize hf : Found.at target entry = found at hw ⊢
  induction hw with
  | arrive _ =>
    cases hf
    exact .arrive ht
  | idle hi _ ih => exact .idle hi (ih hf)
  | up _ ih => exact .up (ih hf)
  | missing _ _ => cases hf
  | enter hn he _ ih => exact .enter hn (h.entry_of_not_loose he (by simp)) (ih hf)
  | leaf hn _ hdir hlink =>
    cases hf
    exact .leaf hn ht hdir hlink
  | lastLink hstops hn _ =>
    cases hf
    exact .lastLink hstops hn ht
  | turn hn he hgoes _ ih => exact .turn hn (h.entry_of_not_loose he (by simp)) hgoes (ih hf)

/-- A file elsewhere is left as it is. -/
theorem leaves (h : disk.Reworked later places)
    (hn : ∀ place, disk.destination path = some place → ¬ places place) :
    disk.Leaves later path := by
  have hentry (place : Place) (hd : disk.destination path = some place) :
      later.entry? place = disk.entry? place :=
    (h.entry place).resolve_right fun hp => hn place hd hp.1
  constructor
  case fileAt?_eq =>
    exact fileAt?_congr (h.destination_eq path) fun place hd => file?_congr (hentry place hd)
  case isFile =>
    intro hfile
    obtain ⟨place, data, hf⟩ := isFile_iff.1 hfile
    obtain ⟨ha, hw⟩ := find_eq_ok_iff.1 hf
    have hat := (hentry place (destination_of_find hf (by simp))).trans hw.entry?_at
    refine isFile_iff.2 ⟨place, data, find_eq_ok_iff.2 ⟨ha, ?_⟩⟩
    rw [h.here]
    exact h.walk hw hat

end Reworked

end Disk

/-- What can happen to a vault. -/
inductive Episode
  | snapshot (vault : Vault) (files : List String)
  | restore (manifest : Manifest)
  | restoreLatest (vault : Vault)
  /-- Others change the disk. -/
  | change (edit : Disk → Disk)

namespace Episode

/-- The world after an episode. -/
def after (world : FallibleHost) : Episode → FallibleHost
  | snapshot vault files => (world.run (vault.snapshot files).attempt).2
  | restore manifest => (world.run manifest.restore).2
  | restoreLatest vault => (world.run vault.restoreLatest.attempt).2
  | change edit => { world with host := { world.host with disk := edit world.disk } }

/-- The paths that a manifest names are none of pristine copies. -/
def Spares (originals : List Original) (disk : Disk) (manifest : Manifest) : Prop :=
  ∀ entry ∈ manifest.entries,
    Avoids originals disk (Path.under ⟨manifest.sourceRoot⟩ ⟨entry.file⟩)

/-- An episode that concerns the files: they are copied or restored, or what others change
are not their pristine copies. -/
def Fits (originals : List Original) (world : FallibleHost) : Episode → Prop
  | snapshot vault files => (∀ file ∈ files, vault.original file ∈ originals) ∧
      Avoids originals world.disk vault.manifestPath
  | restore manifest => Spares originals world.disk manifest
  | restoreLatest vault => ∀ manifest,
      (world.run (Manifest.load vault.manifestPath).attempt).1 = .ok manifest →
        Spares originals world.disk manifest
  | change edit => Distinct originals (edit world.disk) ∧
      ∀ original ∈ originals, world.disk.Leaves (edit world.disk) original.pristine

/-- The manifest of a snapshot of the files may be restored at any time. -/
theorem fits_restore_of_snapshot {start : FallibleHost} {manifest : Manifest}
    (hlasts : vault.sourceRoot.Lasts)
    (h : (start.run (vault.snapshot files).attempt).1 = .ok manifest)
    (hfiles : ∀ file ∈ files, vault.original file ∈ originals)
    (hd : Distinct originals world.disk) : (restore manifest).Fits originals world :=
  vault.avoids_of_snapshot hlasts h hfiles hd

/-- Whether it is others that change the disk. -/
def IsChange : Episode → Prop
  | change _ => True
  | _ => False

/-- Whether copies are written back. -/
def IsRestore : Episode → Prop
  | restore _ | restoreLatest _ => True
  | _ => False

/-- An episode of which it is known beforehand what it writes. -/
def Foreseen : Episode → Prop
  | snapshot _ _ | restore _ => True
  | _ => False

variable {episode : Episode}

/-- Such an episode fits for as long as paths lead where they led. -/
theorem Fits.congr {next : FallibleHost} (h : episode.Fits originals world)
    (hforeseen : episode.Foreseen)
    (hd : ∀ path, next.disk.destination path = world.disk.destination path) :
    episode.Fits originals next := by
  cases episode with
  | snapshot vault files => exact ⟨h.1, h.2.congr hd⟩
  | restore manifest => exact fun entry he => (h entry he).congr hd
  | _ => exact hforeseen.elim

/-- All other episodes write files and make directories only. -/
theorem develops (hs : world.disk.Solid world.disk.here) (h : ¬ episode.IsChange) :
    world.disk.Develops (episode.after world).disk := by
  cases episode with
  | snapshot vault files => exact ((vault.snapshot_obeys world.disk files).touched hs).toDevelops
  | restore manifest => exact (manifest.touched_restore hs).toDevelops
  | restoreLatest vault => exact (vault.touched_restoreLatest hs).toDevelops
  | change edit => exact absurd trivial h

theorem refusal_after (world : FallibleHost) (episode : Episode) :
    (after world episode).refusal = world.refusal := by
  cases episode with
  | snapshot vault files => exact world.refusal_run _
  | restore manifest => exact world.refusal_run _
  | restoreLatest vault => exact world.refusal_run _
  | change edit => rfl

theorem Fits.distinct (h : episode.Fits originals world) (hd : Distinct originals world.disk) :
    Distinct originals (after world episode).disk := by
  cases episode with
  | change edit => exact h.1
  | _ => exact hd.develops (develops hd.solid fun h => h)

/-- A snapshot has written the pristine copy of a file that it lists, with the bytes that the
file had; the copy was not there, if the vault does not refresh. -/
structure Renewal (original : Original) (world : FallibleHost) (vault : Vault)
    (files : List String) : Prop where
  listed : original ∈ files.map vault.original
  bytes : ∃ data, world.disk.BytesAt original.source data ∧
    (after world (.snapshot vault files)).disk.HasFile original.pristine data
  missing : vault.refresh = false → world.disk.isFile original.pristine = false

/-- A snapshot leaves a pristine copy as it is, or it writes it.  It writes that of a file
that the manifest names, if the vault refreshes and no device is in the way. -/
theorem snapshot_next (hc : world.Consistent) (hd : Distinct originals world.disk)
    (h : (snapshot vault files).Fits originals world) (ho : original ∈ originals) :
    (world.disk.Leaves (after world (.snapshot vault files)).disk original.pristine ∧
      ∀ manifest, (world.run (vault.snapshot files).attempt).1 = .ok manifest →
        vault.refresh = true → world.disk.Keeps original.pristine →
          original ∉ manifest.entries.map (vault.original ·.file)) ∨
    Renewal original world vault files := by
  obtain ⟨hfiles, hmanifest⟩ := h
  have hdev : world.disk.Develops (after world (.snapshot vault files)).disk :=
    develops hd.solid fun h => h
  by_cases hlisted : original ∈ files.map vault.original
  · obtain ⟨file, hf, rfl⟩ := List.mem_map.1 hlisted
    have hapart := hmanifest _ (hfiles file hf)
    rw [Vault.pristine_original] at hapart
    cases Vault.run_snapshot_pristine hd.solid hc (hd.shelters (hfiles file hf) hfiles) hapart with
    | left heq hfailed =>
      refine Or.inl ⟨⟨heq, hdev.isFile⟩, fun manifest hok hrefresh hkeeps hnoted => ?_⟩
      refine hfailed hrefresh hkeeps ⟨manifest, hok, ?_⟩
      obtain ⟨entry, he, heq⟩ := List.mem_map.1 hnoted
      exact List.mem_map.2 ⟨entry, he, congrArg Original.file heq⟩
    | renewed h => exact Or.inr ⟨hlisted, h.bytes, h.missing⟩
  · refine Or.inl ⟨((vault.snapshot_obeys world.disk files).touched hd.solid).leaves ?_, ?_⟩
    · rintro place hp (hp' | ⟨file, hf, hcopy⟩)
      · exact hmanifest original ho place hp' hp
      · refine hd.not_copyPlace ho (hfiles file hf) (fun heq => hlisted ?_) hp hcopy
        exact List.mem_map.2 ⟨file, hf, heq⟩
    · intro manifest hok _ _ hnoted
      obtain ⟨entry, he, rfl⟩ := List.mem_map.1 hnoted
      have hmem := (Vault.notes_of_run_snapshot hok).sublist.mem (List.mem_map_of_mem he)
      exact hlisted (List.mem_map_of_mem hmem)

/-- A restore leaves all pristine copies as they are. -/
theorem restore_next (hd : Distinct originals world.disk) (h : episode.Fits originals world)
    (hrestore : episode.IsRestore) (ho : original ∈ originals) :
    world.disk.Leaves (after world episode).disk original.pristine := by
  have hspared {manifest : Manifest} (h : Spares originals world.disk manifest) (place : Place)
      (hp : world.disk.destination original.pristine = some place) :
      ¬ Manifest.FilePlace ⟨manifest.sourceRoot⟩ world.disk manifest.entries place := by
    rintro ⟨entry, he, hp'⟩
    exact h entry he original ho place hp' hp
  cases episode with
  | restore manifest => exact (manifest.touched_restore hd.solid).leaves (hspared h)
  | restoreLatest vault =>
    refine (vault.touched_restoreLatest hd.solid).leaves fun place hp => ?_
    rintro ⟨manifest, hloaded, hp'⟩
    exact hspared (h manifest hloaded) place hp hp'
  | _ => exact hrestore.elim

/-- **An episode leaves a pristine copy as it is**, unless it is a snapshot that has written
it. -/
theorem Fits.next (h : episode.Fits originals world) (hc : world.Consistent)
    (hd : Distinct originals world.disk) (ho : original ∈ originals) :
    world.disk.Leaves (after world episode).disk original.pristine ∨
      ∃ vault files, episode = .snapshot vault files ∧ Renewal original world vault files := by
  cases episode with
  | snapshot vault files =>
    exact (snapshot_next hc hd h ho).imp And.left fun h => ⟨vault, files, rfl, h⟩
  | change edit => exact Or.inl (h.2 original ho)
  | _ => exact Or.inl (restore_next hd h trivial ho)

/-- A snapshot that may write the pristine copy of a file although it is there. -/
def Refreshes (original : Original) : Episode → Prop
  | snapshot vault files => vault.refresh = true ∧ original ∈ files.map vault.original
  | _ => False

end Episode

/-! ### Any number of episodes -/

/-- The world after some episodes. -/
def FallibleHost.through (world : FallibleHost) (history : List Episode) : FallibleHost :=
  history.foldl Episode.after world

namespace Episode

/-- Episodes of which each fits when its time has come. -/
def Fitting (originals : List Original) : FallibleHost → List Episode → Prop
  | _, [] => True
  | world, episode :: history =>
    episode.Fits originals world ∧ Fitting originals (after world episode) history

variable {history past future : List Episode}

theorem Fitting.cons (h : episode.Fits originals world)
    (hf : Fitting originals (after world episode) history) :
    Fitting originals world (episode :: history) :=
  ⟨h, hf⟩

theorem Fitting.append_iff : Fitting originals world (past ++ future) ↔
    Fitting originals world past ∧ Fitting originals (world.through past) future := by
  induction past generalizing world with
  | nil => simp [Fitting, FallibleHost.through]
  | cons episode past ih => simp [Fitting, FallibleHost.through, ih, and_assoc]

/-- After such episodes, the files and the copies are still distinct. -/
theorem Fitting.distinct (h : Fitting originals world history) (hc : world.Consistent)
    (hd : Distinct originals world.disk) :
    (world.through history).Consistent ∧ Distinct originals (world.through history).disk := by
  induction history generalizing world with
  | nil => exact ⟨hc, hd⟩
  | cons episode history ih =>
    exact ih h.2 (hc.of_eq (refusal_after world episode)) (h.1.distinct hd)

/-- **A pristine copy stays as it is**, unless it is refreshed. -/
theorem Fitting.hasFile (h : Fitting originals world history) (hc : world.Consistent)
    (hd : Distinct originals world.disk) (ho : original ∈ originals)
    (hstale : ∀ episode ∈ history, ¬ episode.Refreshes original) {data : ByteArray}
    (hf : world.disk.HasFile original.pristine data) :
    (world.through history).disk.HasFile original.pristine data := by
  induction history generalizing world with
  | nil => exact hf
  | cons episode history ih =>
    obtain ⟨hfirst, hrest⟩ := List.forall_mem_cons.1 hstale
    refine ih h.2 (hc.of_eq (refusal_after world episode)) (h.1.distinct hd) hrest ?_
    rcases h.1.next hc hd ho with hleaves | ⟨vault, files, rfl, hrenewal⟩
    · exact hleaves.hasFile hf
    · -- a snapshot that does not refresh would not have found the copy
      have hrefresh : vault.refresh = false :=
        Bool.eq_false_iff.2 fun h => hfirst ⟨h, hrenewal.listed⟩
      exact absurd hf.isFile (Bool.eq_false_iff.1 (hrenewal.missing hrefresh))

/-- **A pristine copy that has come holds the bytes that its file had** at the first snapshot
that wrote it. -/
theorem Fitting.first (h : Fitting originals world history) (hc : world.Consistent)
    (hd : Distinct originals world.disk) (ho : original ∈ originals)
    (hstale : ∀ episode ∈ history, ¬ episode.Refreshes original)
    (hnone : world.disk.fileAt? original.pristine = none) {data : ByteArray}
    (hlast : (world.through history).disk.fileAt? original.pristine = some data) :
    ∃ past vault files future, history = past ++ .snapshot vault files :: future ∧
      original ∈ files.map vault.original ∧
      (world.through past).disk.fileAt? original.pristine = none ∧
      (world.through past).disk.BytesAt original.source data ∧
      (after (world.through past) (.snapshot vault files)).disk.HasFile original.pristine data := by
  induction history generalizing world with
  | nil => exact nomatch hnone.symm.trans hlast
  | cons episode history ih =>
    obtain ⟨-, hrest⟩ := List.forall_mem_cons.1 hstale
    have hc' := hc.of_eq (refusal_after world episode)
    have hd' := h.1.distinct hd
    rcases h.1.next hc hd ho with hleaves | ⟨vault, files, rfl, hrenewal⟩
    · obtain ⟨past, vault, files, future, rfl, hfound⟩ :=
        ih h.2 hc' hd' hrest (hleaves.fileAt?_eq.trans hnone) hlast
      exact ⟨episode :: past, vault, files, future, rfl, hfound⟩
    · -- it stays as it is from then on
      obtain ⟨bytes, hsource, hfile⟩ := hrenewal.bytes
      have hkept := (Disk.hasFile_iff.1 (h.2.hasFile hc' hd' ho hrest hfile)).2
      obtain rfl : bytes = data := Option.some.inj (hkept.symm.trans hlast)
      exact ⟨[], vault, files, history, rfl, hrenewal.listed, hnone, hsource, hfile⟩

end Episode

end

namespace Sample

end Sample

end StyleTokens

/-
A restore, turn by turn.

The entries of a manifest are restored one after another on one disk.  What becomes of an
entry is decided by the disk as it is at its turn: earlier turns may have written the copy
that it reads, or the directory that its file needs.  Whatever happens, the turns go on, and
each of them writes one file or none.

* `BackupEntry.Matches`, `Disk.Takes` — a copy that is intact, and a disk that takes bytes;
* `Action.run_writeFile_iff` — when a file is written;
* `BackupEntry.Turn` — what a turn does, and what is told of it;
* `BackupEntry.turn_restore` — the turn of an entry;
* `Manifest.worldAt` — the world before each turn;
* `Manifest.restore_exact` — a restore has a turn for each entry, and changes no other files.

Design notes: a device takes what is written to it and keeps nothing, so that a file that is
a device is told to be restored and is not.
-/
import StyleTokens.Proofs.Vault.Pristine
import StyleTokens.Proofs.Vault.Restore

namespace StyleTokens

variable {world after : FallibleHost} {disk : Disk} {root path : Path} {entry : BackupEntry}
  {entries : List BackupEntry} {data : ByteArray}

/-- A copy that is as it was recorded, or of which nothing was recorded. -/
def BackupEntry.Matches (entry : BackupEntry) (data : ByteArray) : Prop :=
  entry.sha256 = "" ∨ Sha256.hex data = entry.sha256

instance (entry : BackupEntry) (data : ByteArray) : Decidable (entry.Matches data) :=
  inferInstanceAs (Decidable (_ ∨ _))

/-- The disk once the directories that a path needs are made, as far as they can be. -/
def Disk.readied (disk : Disk) (path : Path) : Except IoCause Unit × Disk :=
  match path.parent? with
  | some parent => disk.makeDirectories parent
  | none => (.ok (), disk)

/-- A disk that takes bytes at a path, with the directories that it needs. -/
def Disk.Takes (disk : Disk) (path : Path) (data : ByteArray) : Prop :=
  (disk.readied path).1 = .ok () ∧ ∃ later, (disk.readied path).2.write path data = .ok later

/-! ### Writing a file -/

namespace Action

end Action

/-! ### One turn -/

/-- The outcome that is told of an entry. -/
def BackupEntry.outcome (entry : BackupEntry) (result : Except Fault Unit) : RestoreOutcome :=
  ⟨entry.file, match result with
    | .ok _ => none
    | .error fault => some fault.message⟩

/-- What the turn of an entry does, and what is told of it. -/
structure BackupEntry.Turn (root : Path) (entry : BackupEntry) (before after : FallibleHost)
    (outcome : RestoreOutcome) : Prop where
  file_eq : outcome.file = entry.file
  /-- The entry is told to be restored just if its copy can be read, is intact, and can be
  written to where its file is. -/
  restored_iff : outcome.restored = true ↔ ∃ data known,
    before.reply (.read ⟨entry.backup⟩) = (.ok data, known) ∧ entry.Matches data ∧
      (known.run (Action.writeFile (root.under ⟨entry.file⟩) data).attempt).1 = .ok ()
  /-- If nothing is refused, the disk alone decides. -/
  granted_iff : before.Grants → (outcome.restored = true ↔ ∃ data,
    before.disk.read ⟨entry.backup⟩ = .ok data ∧ entry.Matches data ∧
      before.disk.Takes (root.under ⟨entry.file⟩) data)
  /-- A file that is restored has the bytes of its copy, unless it is a device. -/
  held : outcome.restored = true → before.disk.Keeps (root.under ⟨entry.file⟩) → ∃ data,
    before.disk.read ⟨entry.backup⟩ = .ok data ∧ entry.Matches data ∧
      after.disk.HasFile (root.under ⟨entry.file⟩) data
  /-- Where nothing is restored, nothing is touched. -/
  left : outcome.restored = false → ∀ place, after.disk.file? place = before.disk.file? place
  /-- Other files are not touched at all. -/
  others : ∀ place, before.disk.destination (root.under ⟨entry.file⟩) ≠ some place →
    after.disk.file? place = before.disk.file? place

section

variable {known : FallibleHost}

end

namespace Manifest

end Manifest

namespace Sample

end Sample

end StyleTokens

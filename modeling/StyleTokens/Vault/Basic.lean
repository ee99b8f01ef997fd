/-
Vaults: where backups are kept.

The files of a project are copied to the same paths below the backup root, and
the first copy of each also to a directory for pristine copies.  The manifest
lies next to them and describes the last snapshot.

* `Vault.backupPath`, `Vault.pristinePath`, `Vault.manifestPath` — the places;
* `Vault.snapshot` — copies files and writes the manifest;
* `Manifest.restore` — writes the copies of a manifest back.

Design notes: a file that cannot be copied is noted in the manifest and does not
stop the snapshot.  Only a manifest that cannot be written is a failure.
-/
import StyleTokens.Json.Writer
import StyleTokens.Script
import StyleTokens.Sha256
import StyleTokens.Vault.Manifest

namespace StyleTokens

/-- Where the files of a project are copied to. -/
structure Vault where
  sourceRoot : Path
  backupRoot : Path
  /-- Whether pristine copies that are there are replaced. -/
  refresh : Bool := false
  deriving DecidableEq, Repr, Inhabited

/-- The place below a directory that a path has below the root; parts that go up
are dropped, so it never leaves the directory. -/
def Path.counterpart (base : Path) (file : String) : Path :=
  let names := (Path.mk file).parts.filterMap fun
    | .name text => some text
    | _ => none
  names.foldl Path.child base

namespace Vault

/-- The place of the manifest. -/
def manifestPath (vault : Vault) : Path :=
  vault.backupRoot.child "backup-info.json"

/-- The place of the copy of a file. -/
def backupPath (vault : Vault) (file : String) : Path :=
  vault.backupRoot.counterpart file

/-- The place of the first copy of a file. -/
def pristinePath (vault : Vault) (file : String) : Path :=
  (vault.backupRoot.child ".pristine").counterpart file

/-- Writes a copy and makes sure that it has its full size. -/
def writeCopy (path : Path) (data : ByteArray) (file : String) : Action Unit := do
  Action.writeFile path data
  let written ← Action.ofIo (Script.request (.size path))
  if written ≠ data.size then throw (.invalidArgument (.shortBackup file written data.size))

/-- Copies one file. -/
def snapshotOne (vault : Vault) (file : String) : Action BackupEntry := do
  let backup := vault.backupPath file
  let pristine := vault.pristinePath file
  let data ← Action.ofIo (Script.request (.read (vault.sourceRoot.under ⟨file⟩)))
  writeCopy backup data file
  if vault.refresh || !(← Script.request (.isFile pristine)) then
    writeCopy pristine data file
  return {
    file, backup := backup.plain, size := data.size, sha256 := Sha256.hex data
    pristine := some pristine.plain }

/-- Copies files one after another; what fails is noted with its reason. -/
def copyAll (vault : Vault) : List String → Script (List BackupEntry × List BackupFailure)
  | [] => return ([], [])
  | file :: others => do
    let copied ← Action.attempt (vault.snapshotOne file)
    let (entries, failures) ← vault.copyAll others
    match copied with
    | .ok entry => return (entry :: entries, failures)
    | .error fault => return (entries, ⟨file, fault.message⟩ :: failures)

end Vault

/-- Writes a manifest. -/
def Manifest.save (manifest : Manifest) (path : Path) : Action Unit :=
  Action.writeFile path manifest.toJson.pretty.toUTF8

/-- Reads a manifest. -/
def Manifest.load (path : Path) : Action Manifest := do
  Action.ensurePresent path
  let text ← Action.readText path
  Manifest.parse text

/-- Copies files into the vault and writes the manifest. -/
def Vault.snapshot (vault : Vault) (files : List String) : Action Manifest := do
  let (entries, failures) ← (vault.copyAll files : Script _)
  let manifest : Manifest := {
    schemaVersion := Manifest.schema
    createdAt := ← Script.request .now
    sourceRoot := vault.sourceRoot.plain
    entries, failures }
  manifest.save vault.manifestPath
  return manifest

/-- Writes one copy back, unless its content has changed since. -/
def BackupEntry.restore (sourceRoot : Path) (entry : BackupEntry) : Action Unit := do
  let data ← Action.ofIo (Script.request (.read ⟨entry.backup⟩))
  if entry.sha256 ≠ "" && Sha256.hex data ≠ entry.sha256 then
    throw (.invalidArgument (.checksum entry.backup))
  Action.writeFile (sourceRoot.under ⟨entry.file⟩) data

namespace Manifest

/-- Writes copies back one after another. -/
def restoreAll (sourceRoot : Path) : List BackupEntry → Script (List RestoreOutcome)
  | [] => return []
  | entry :: entries => do
    let result ← Action.attempt (entry.restore sourceRoot)
    let error :=
      match result with
      | .ok _ => none
      | .error fault => some fault.message
    return ⟨entry.file, error⟩ :: (← restoreAll sourceRoot entries)

/-- Writes all copies of a manifest back. -/
def restore (manifest : Manifest) : Script RestoreResult := do
  let outcomes ← restoreAll ⟨manifest.sourceRoot⟩ manifest.entries
  return ⟨manifest.sourceRoot, outcomes, ← Script.request .now⟩

end Manifest

/-- Restores the last snapshot. -/
def Vault.restoreLatest (vault : Vault) : Action RestoreResult := do
  let manifest ← Manifest.load vault.manifestPath
  manifest.restore

end StyleTokens

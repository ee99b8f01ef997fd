/-
Manifests of backups.

* `Manifest` — which files a snapshot copied, and which it could not;
* `Manifest.covers` and `Manifest.failureFor?` — what it says about one file;
* `Manifest.toJson` and `Manifest.parse` — the manifest as it is written.
-/
import StyleTokens.Fault
import StyleTokens.Json.Decode
import StyleTokens.Json.Reader

namespace StyleTokens

/-- A file that was copied. -/
structure BackupEntry where
  /-- The file, relative to the source root. -/
  file : String
  /-- Where the copy is. -/
  backup : String
  size : Nat
  /-- The hash of the content. -/
  sha256 : String
  /-- Where the first copy of the file is. -/
  pristine : Option String
  deriving DecidableEq, Repr, Inhabited

/-- A file that could not be copied, and why. -/
structure BackupFailure where
  file : String
  error : String
  deriving DecidableEq, Repr, Inhabited

/-- What one snapshot did. -/
structure Manifest where
  schemaVersion : String
  createdAt : String
  sourceRoot : String
  entries : List BackupEntry
  failures : List BackupFailure
  deriving DecidableEq, Repr, Inhabited

/-- An entry as it is written; a copy that is not known is left out. -/
def BackupEntry.toJson (entry : BackupEntry) : Json :=
  .object ([
    ("original", .string entry.file),
    ("backup", .string entry.backup),
    ("size", .ofNat entry.size),
    ("sha256", .string entry.sha256)] ++
    (entry.pristine.map fun path => ("pristine", .string path)).toList)

open Json in
/-- A written entry. -/
def BackupEntry.ofJson : Decoder BackupEntry := fun document => do
  let r ← asRecord ["original", "backup", "size", "sha256", "pristine"] document
  return {
    file := ← r.required "original" asString
    backup := ← r.required "backup" asString
    size := ← r.required "size" asNat
    sha256 := ← r.required "sha256" asString
    pristine := ← r.withDefault "pristine" none (asOption asString) }

/-- A failure as it is written. -/
def BackupFailure.toJson (failure : BackupFailure) : Json :=
  .object [("original", .string failure.file), ("error", .string failure.error)]

open Json in
/-- A written failure. -/
def BackupFailure.ofJson : Decoder BackupFailure := fun document => do
  let r ← asRecord ["original", "error"] document
  return ⟨← r.required "original" asString, ← r.required "error" asString⟩

namespace Manifest

/-- The version of manifests. -/
def schema : String := "token-migrator-backup-v1"

/-- Whether a file was copied. -/
def covers (manifest : Manifest) (file : String) : Bool :=
  manifest.entries.any (·.file == file)

/-- Why a file was not copied. -/
def failureFor? (manifest : Manifest) (file : String) : Option String :=
  (manifest.failures.find? (·.file == file)).map (·.error)

/-- The manifest as it is written. -/
def toJson (manifest : Manifest) : Json :=
  .object [
    ("schema_version", .string manifest.schemaVersion),
    ("created_at", .string manifest.createdAt),
    ("source_root", .string manifest.sourceRoot),
    ("entries", .array (manifest.entries.map BackupEntry.toJson)),
    ("failures", .array (manifest.failures.map BackupFailure.toJson))]

open Json in
/-- A written manifest. -/
def ofJson : Decoder Manifest := fun document => do
  let names := ["schema_version", "created_at", "source_root", "entries", "failures"]
  let r ← asRecord names document
  return {
    schemaVersion := ← r.required "schema_version" asString
    createdAt := ← r.required "created_at" asString
    sourceRoot := ← r.required "source_root" asString
    entries := ← r.required "entries" (asList BackupEntry.ofJson)
    failures := ← r.withDefault "failures" [] (asList BackupFailure.ofJson) }

/-- The manifest that a JSON text describes. -/
def parse (text : String) : Except Fault Manifest :=
  (Json.read text >>= ofJson).mapError .json

end Manifest

/-- What became of one entry when a manifest was restored. -/
structure RestoreOutcome where
  file : String
  error : Option String
  deriving DecidableEq, Repr, Inhabited

/-- Whether the file was restored. -/
def RestoreOutcome.restored (outcome : RestoreOutcome) : Bool :=
  outcome.error.isNone

/-- The record of a restore. -/
structure RestoreResult where
  sourceRoot : String
  outcomes : List RestoreOutcome
  timestamp : String
  deriving DecidableEq, Repr, Inhabited

namespace RestoreResult

/-- Entries tried. -/
def attempted (result : RestoreResult) : Nat :=
  result.outcomes.length

/-- Entries restored. -/
def restoredCount (result : RestoreResult) : Nat :=
  (result.outcomes.filter (·.restored)).length

/-- Entries that could not be restored. -/
def failedCount (result : RestoreResult) : Nat :=
  result.attempted - result.restoredCount

/-- Whether nothing failed. -/
def allRestored (result : RestoreResult) : Bool :=
  result.failedCount = 0

/-- The record as it is written. -/
def toJson (result : RestoreResult) : Json :=
  .object [
    ("source_root", .string result.sourceRoot),
    ("attempted", .ofNat result.attempted),
    ("restored_count", .ofNat result.restoredCount),
    ("failed_count", .ofNat result.failedCount),
    ("outcomes", .array (result.outcomes.map fun outcome => .object [
      ("original", .string outcome.file),
      ("restored", .bool outcome.restored),
      ("error", .nullable .string outcome.error)])),
    ("timestamp", .string result.timestamp)]

end RestoreResult

end StyleTokens

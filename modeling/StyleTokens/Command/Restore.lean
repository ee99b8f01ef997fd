/-
The command that writes backups back.

* `RestoreOptions.perform` — restores a manifest and files the record; it fails if
  one of the files could not be restored.
-/
import StyleTokens.Command.Basic
import StyleTokens.Console
import StyleTokens.ReportStore
import StyleTokens.Vault.Basic

namespace StyleTokens

/-- The name of the record's file. -/
def restoreReportName : String := "restore-report.json"

/-- Tells of the files that were not restored. -/
def tellFailures (console : Console) : List RestoreOutcome → Script Unit
  | [] => return
  | outcome :: outcomes => do
    if let some reason := outcome.error then
      console.error (outcome.file ++ ": " ++ reason)
    tellFailures console outcomes

/-- Tells about a restore whose record lies at a path. -/
def RestoreResult.tell (result : RestoreResult) (console : Console) (path : Path) :
    Script Unit := do
  console.heading "restore"
  console.info ("attempted=" ++ toString result.attempted ++ " restored=" ++
    toString result.restoredCount ++ " failed=" ++ toString result.failedCount)
  tellFailures console result.outcomes
  console.success ("restore report: " ++ path.text)

/-- The summary of a restore for programs. -/
def RestoreResult.members (result : RestoreResult) (console : Console) (manifest path : Path) :
    List (String × Json) :=
  [ ("command", .string "restore"),
    ("status", .string (if result.allRestored then "ok" else "partial")),
    ("manifest", .string manifest.text),
    ("report", .string path.text),
    ("restored", .ofNat result.restoredCount),
    ("failed", .ofNat result.failedCount),
    ("output_mode", console.mode)]

/-- The command. -/
def RestoreOptions.perform (options : RestoreOptions) : Action Unit := do
  let console ← (Console.detect : Script _)
  let root ← options.project.resolveRoot
  let vault : Vault := ⟨root, options.project.resolveBackupDir root, false⟩
  let manifestPath := options.manifest.getD vault.manifestPath
  let manifest ← Manifest.load manifestPath
  let result ← (manifest.restore : Script _)
  let path ← (ReportStore.mk (options.project.resolveOutDir root)).file restoreReportName
    result.toJson
  result.tell console path
  console.summary (result.members console manifestPath path)
  if !result.allRestored then
    throw (.exit 2 (toString result.failedCount ++ " of " ++ toString result.attempted ++
      " backups could not be restored; see " ++ path.text))

end StyleTokens

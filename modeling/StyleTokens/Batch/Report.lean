/-
Reports on batches.

* `BatchReport.ofResults` — the report on a window whose files came out in a
  certain way, with the counts that follow from it;
* `BatchReport.fileName` — the name that a report is filed under;
* `BatchReport.nextStart?` — where the next batch starts, if files are left;
* `BatchReport.toJson`, `BatchReport.load` — the report as it is written.
-/
import StyleTokens.Batch.Result
import StyleTokens.Gate.Basic
import StyleTokens.Json.Reader
import StyleTokens.Listing
import StyleTokens.Script

namespace StyleTokens

/-- The record of a batch. -/
structure BatchReport where
  schemaVersion : String
  ruleSet : String
  startIndex : Nat
  batchSize : Nat
  endIndex : Nat
  totalFiles : Nat
  processedCount : Nat
  results : List FileRecord
  totalFixes : Nat
  successCount : Nat
  fixedCount : Nat
  unchangedCount : Nat
  errorCount : Nat
  skippedCount : Nat
  remainingCount : Nat
  compileSuccess : Bool
  gate : GateSummary
  dryRun : Bool
  backupBypassed : Bool
  backupManifest : Option String
  timestamp : String
  deriving DecidableEq, Repr, Inhabited

namespace BatchReport

/-- The version of reports. -/
def schema : String := "token-migrator-batch-report-v1"

/-- The number of records in a state. -/
def count (status : FileStatus) (records : List FileRecord) : Nat :=
  (records.filter (·.status == status)).length

/-- The report on a window of a listing of `total` files. -/
def ofResults (ruleSet : String) (window : Window) (total : Nat) (results : List FileResult)
    (gate : GateSummary) (timestamp : String) : BatchReport :=
  let records := results.map FileResult.record
  { schemaVersion := schema
    ruleSet
    startIndex := window.start
    batchSize := window.size
    endIndex := window.start + records.length
    totalFiles := total
    processedCount := records.length
    results := records
    totalFixes := Count.total (records.map FileRecord.fixCount)
    successCount := count .fixed records + count .unchanged records
    fixedCount := count .fixed records
    unchangedCount := count .unchanged records
    errorCount := count .errored records
    skippedCount := count .skipped records
    remainingCount := Window.remaining total window.start records.length
    compileSuccess := gate.allowsProgress
    gate
    dryRun := false
    backupBypassed := false
    backupManifest := none
    timestamp }

/-- The name of the report's file; it tells the window. -/
def fileName (report : BatchReport) : String :=
  report.ruleSet ++ "-fix-batch-" ++ toString report.startIndex ++ "-" ++
    toString report.endIndex ++ "-report.json"

/-- The start of the next batch, if there are files left. -/
def nextStart? (report : BatchReport) : Option Nat :=
  if 0 < report.remainingCount then some report.endIndex else none

/-- The report as it is written. -/
def toJson (report : BatchReport) : Json :=
  .object [
    ("schema_version", .string report.schemaVersion),
    ("rule_set", .string report.ruleSet),
    ("start_index", .ofNat report.startIndex),
    ("batch_size", .ofNat report.batchSize),
    ("end_index", .ofNat report.endIndex),
    ("total_files", .ofNat report.totalFiles),
    ("processed_count", .ofNat report.processedCount),
    ("results", .array (report.results.map FileRecord.toJson)),
    ("total_fixes", .ofNat report.totalFixes),
    ("success_count", .ofNat report.successCount),
    ("fixed_count", .ofNat report.fixedCount),
    ("unchanged_count", .ofNat report.unchangedCount),
    ("error_count", .ofNat report.errorCount),
    ("skipped_count", .ofNat report.skippedCount),
    ("remaining_count", .ofNat report.remainingCount),
    ("compile_success", .bool report.compileSuccess),
    ("gate", report.gate.toJson),
    ("dry_run", .bool report.dryRun),
    ("backup_bypassed", .bool report.backupBypassed),
    ("backup_manifest", .nullable .string report.backupManifest),
    ("timestamp", .string report.timestamp)]

/-- The names of the fields, in order. -/
def fieldNames : List String := [
  "schema_version", "rule_set", "start_index", "batch_size", "end_index", "total_files",
  "processed_count", "results", "total_fixes", "success_count", "fixed_count",
  "unchanged_count", "error_count", "skipped_count", "remaining_count", "compile_success",
  "gate", "dry_run", "backup_bypassed", "backup_manifest", "timestamp"]

open Json in
/-- A written report. -/
def ofJson : Decoder BatchReport := fun document => do
  let r ← asRecord fieldNames document
  return {
    schemaVersion := ← r.required "schema_version" asString
    ruleSet := ← r.required "rule_set" asString
    startIndex := ← r.required "start_index" asNat
    batchSize := ← r.required "batch_size" asNat
    endIndex := ← r.required "end_index" asNat
    totalFiles := ← r.required "total_files" asNat
    processedCount := ← r.required "processed_count" asNat
    results := ← r.required "results" (asList FileRecord.ofJson)
    totalFixes := ← r.required "total_fixes" asNat
    successCount := ← r.required "success_count" asNat
    fixedCount := ← r.required "fixed_count" asNat
    unchangedCount := ← r.required "unchanged_count" asNat
    errorCount := ← r.required "error_count" asNat
    skippedCount := ← r.required "skipped_count" asNat
    remainingCount := ← r.required "remaining_count" asNat
    compileSuccess := ← r.required "compile_success" asBool
    gate := ← r.required "gate" GateSummary.ofJson
    dryRun := ← r.required "dry_run" asBool
    backupBypassed := ← r.required "backup_bypassed" asBool
    backupManifest := ← r.nullable "backup_manifest" asString
    timestamp := ← r.required "timestamp" asString }

/-- The report that a JSON text describes. -/
def parse (text : String) : Except Fault BatchReport :=
  (Json.read text >>= ofJson).mapError .json

/-- Reads a report. -/
def load (path : Path) : Action BatchReport := do
  let text ← Action.readText path
  parse text

end BatchReport

end StyleTokens

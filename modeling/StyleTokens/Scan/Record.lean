/-
Reports of scans as they are written.

A report that is made by a scan has sums and lists that follow from its details; a
report that is read has them as they stand in it.

* `IssueRecord` — a report field by field;
* `IssueReport.record` — the record of a report that a scan has made;
* `IssueRecord.toJson`, `IssueRecord.parse` — the record as it is written.
-/
import StyleTokens.Fault
import StyleTokens.Json.Decode
import StyleTokens.Json.Reader
import StyleTokens.Scan

namespace StyleTokens

/-- Counts by name as they are written. -/
def Json.ofCounts (counts : List (String × Nat)) : Json :=
  .object (counts.map fun (name, n) => (name, .ofNat n))

/-- A tally as it is written. -/
def Tally.toJson (tally : Tally) : Json :=
  .object [
    ("rule_id", .string tally.rule),
    ("matched", .ofNat tally.matched),
    ("replaced", .ofNat tally.replaced),
    ("unmapped", .ofNat tally.unmapped),
    ("in_comment", .ofNat tally.inComment),
    ("unmapped_literals", .ofCounts tally.unmappedLiterals)]

open Json in
/-- A written tally. -/
def Tally.ofJson : Decoder Tally := fun document => do
  let names := ["rule_id", "matched", "replaced", "unmapped", "in_comment", "unmapped_literals"]
  let r ← asRecord names document
  return {
    rule := ← r.required "rule_id" asString
    matched := ← r.required "matched" asNat
    replaced := ← r.required "replaced" asNat
    unmapped := ← r.required "unmapped" asNat
    inComment := ← r.required "in_comment" asNat
    unmappedLiterals := ← r.required "unmapped_literals" (asMap asNat) }

/-- What a record says of one file. -/
structure IssueEntry where
  path : String
  mapped : Nat
  unmapped : Nat
  inComment : Nat
  rules : List Tally
  deriving DecidableEq, Repr, Inhabited

namespace IssueEntry

/-- An entry as it is written. -/
def toJson (entry : IssueEntry) : Json :=
  .object [
    ("path", .string entry.path),
    ("mapped", .ofNat entry.mapped),
    ("unmapped", .ofNat entry.unmapped),
    ("in_comment", .ofNat entry.inComment),
    ("rules", .array (entry.rules.map Tally.toJson))]

open Json in
/-- A written entry. -/
def ofJson : Decoder IssueEntry := fun document => do
  let r ← asRecord ["path", "mapped", "unmapped", "in_comment", "rules"] document
  return {
    path := ← r.required "path" asString
    mapped := ← r.required "mapped" asNat
    unmapped := ← r.required "unmapped" asNat
    inComment := ← r.required "in_comment" asNat
    rules := ← r.required "rules" (asList Tally.ofJson) }

end IssueEntry

/-- An error as it is written. -/
def ScanError.toJson (error : ScanError) : Json :=
  .object [("path", .string error.path), ("error", .string error.error)]

open Json in
/-- A written error. -/
def ScanError.ofJson : Decoder ScanError := fun document => do
  let r ← asRecord ["path", "error"] document
  return ⟨← r.required "path" asString, ← r.required "error" asString⟩

/-- The record of a scan. -/
structure IssueRecord where
  schemaVersion : String
  ruleSet : String
  root : String
  scannedCount : Nat
  files : List String
  details : List IssueEntry
  skipped : List String
  errors : List ScanError
  totalMapped : Nat
  totalUnmapped : Nat
  unmappedLiterals : List (String × Nat)
  timestamp : String
  deriving DecidableEq, Repr, Inhabited

namespace IssueRecord

/-- The record as it is written. -/
def toJson (record : IssueRecord) : Json :=
  .object [
    ("schema_version", .string record.schemaVersion),
    ("rule_set", .string record.ruleSet),
    ("root", .string record.root),
    ("scanned_count", .ofNat record.scannedCount),
    ("files", .strings record.files),
    ("details", .array (record.details.map IssueEntry.toJson)),
    ("skipped", .strings record.skipped),
    ("errors", .array (record.errors.map ScanError.toJson)),
    ("total_mapped", .ofNat record.totalMapped),
    ("total_unmapped", .ofNat record.totalUnmapped),
    ("unmapped_literals", .ofCounts record.unmappedLiterals),
    ("timestamp", .string record.timestamp)]

/-- The names of the fields, in order. -/
def fieldNames : List String := [
  "schema_version", "rule_set", "root", "scanned_count", "files", "details", "skipped",
  "errors", "total_mapped", "total_unmapped", "unmapped_literals", "timestamp"]

open Json in
/-- A written record. -/
def ofJson : Decoder IssueRecord := fun document => do
  let r ← asRecord fieldNames document
  return {
    schemaVersion := ← r.required "schema_version" asString
    ruleSet := ← r.required "rule_set" asString
    root := ← r.required "root" asString
    scannedCount := ← r.required "scanned_count" asNat
    files := ← r.required "files" (asList asString)
    details := ← r.required "details" (asList IssueEntry.ofJson)
    skipped := ← r.required "skipped" (asList asString)
    errors := ← r.required "errors" (asList ScanError.ofJson)
    totalMapped := ← r.required "total_mapped" asNat
    totalUnmapped := ← r.required "total_unmapped" asNat
    unmappedLiterals := ← r.required "unmapped_literals" (asMap asNat)
    timestamp := ← r.required "timestamp" asString }

/-- The record that a JSON text describes. -/
def parse (text : String) : Except Fault IssueRecord :=
  (Json.read text >>= ofJson).mapError .json

end IssueRecord

/-- What a scan found in one file, with its sums. -/
def FileIssues.record (issues : FileIssues) : IssueEntry :=
  ⟨issues.path, issues.mapped, issues.unmapped, issues.inComment, issues.rules⟩

/-- A report with its sums. -/
def IssueReport.record (report : IssueReport) : IssueRecord where
  schemaVersion := schema
  ruleSet := report.ruleSet
  root := report.root
  scannedCount := report.scannedCount
  files := report.files
  details := report.details.map FileIssues.record
  skipped := report.skipped
  errors := report.errors
  totalMapped := report.totalMapped
  totalUnmapped := report.totalUnmapped
  unmappedLiterals := report.unmappedLiterals
  timestamp := report.timestamp

/-- The report as it is written. -/
def IssueReport.toJson (report : IssueReport) : Json :=
  report.record.toJson

end StyleTokens

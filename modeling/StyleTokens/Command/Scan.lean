/-
The command that looks for literals.

* `ScanOptions.perform` — scans the files of a source and files the report.
-/
import StyleTokens.Command.Basic
import StyleTokens.Console
import StyleTokens.ReportStore
import StyleTokens.Scan.Record

namespace StyleTokens

/-- Tells about a scan whose report lies at a path. -/
def IssueReport.tell (report : IssueReport) (console : Console) (path : Path) : Script Unit := do
  console.heading ("scan: " ++ report.ruleSet)
  console.info ("scanned=" ++ toString report.scannedCount ++ " with_issues=" ++
    toString report.files.length ++ " skipped=" ++ toString report.skipped.length ++
    " errors=" ++ toString report.errors.length)
  console.info ("mapped=" ++ toString report.totalMapped ++ " unmapped=" ++
    toString report.totalUnmapped)
  if report.isClean then console.success "no mapped literals remain"
  else
    console.warning (toString report.totalMapped ++
      " mapped literals remain; feed the report to \u0060run --source\u0060")
  console.success ("issue report: " ++ path.text)

/-- The summary of a scan for programs. -/
def IssueReport.members (report : IssueReport) (console : Console) (path : Path) :
    List (String × Json) :=
  [ ("command", .string "scan"),
    ("status", .string "ok"),
    ("rule_set", .string report.ruleSet),
    ("report", .string path.text),
    ("files_with_issues", .ofNat report.files.length),
    ("total_mapped", .ofNat report.totalMapped),
    ("total_unmapped", .ofNat report.totalUnmapped),
    ("output_mode", console.mode)]

/-- The command. -/
def ScanOptions.perform (options : ScanOptions) : Action Unit := do
  let console ← (Console.detect : Script _)
  let setup ← Setup.load options.project.config
  let ruleSet ← (setup.ruleSet options.ruleSet : Except Fault _)
  let root ← options.project.resolveRoot
  let catalog := Catalog.skippingBackups { root } (options.project.resolveBackupDir root)
  let files ← catalog.list (options.source.source setup)
  let report ← (scan ruleSet (setup.exclusion options.project.exclude) root files : Script _)
  let path ← (ReportStore.mk (options.project.resolveOutDir root)).file report.fileName
    report.toJson
  report.tell console path
  console.summary (report.members console path)

end StyleTokens

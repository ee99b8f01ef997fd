/-
The command that revises one batch.

All that can be wrong with the request is found before the first file is touched.
After that the batch is carried out in any case, and the failure of the command
tells what is left to do: a lost report comes before a gate that did not pass.

* `RunOptions.gate?` — the gate that the options and the configuration ask for;
* `BatchReport.tell` — what a user is told about a batch;
* `RunOptions.perform` — the command.
-/
import StyleTokens.Batch.Run
import StyleTokens.Command.Basic
import StyleTokens.Console
import StyleTokens.ReportStore

namespace StyleTokens

/-- The gate that is asked for, if any. -/
def RunOptions.gate? (options : RunOptions) (setup : Setup) (root outDir : Path) :
    Except Fault (Option Gate) := do
  if options.skipGate || options.dryRun then return none
  match options.gateCommand <|> setup.configuration.gate.command with
  | none => return none
  | some command =>
    if Text.allBlank command.toList then return none
    let limit ←
      match options.gateTimeout with
      | some text => Duration.parse text
      | none => pure (.ofSeconds setup.configuration.gate.timeoutSeconds)
    if limit.milliseconds = 0 then throw (.invalidArgument .zeroGateTimeout)
    return some { command, directory := root, limit, logDirectory := outDir.child "gate-logs" }

/-- Makes sure that reports can be filed in a directory. -/
def prepareOutDir (directory : Path) : Action Unit := do
  if ← Script.request (.present directory) then
    if !(← Script.request (.isDirectory directory)) then
      throw (.invalidArgument (.notADirectory directory.text))
  Action.makeDirectories directory

/-- Warns of the files that went wrong. -/
def tellErrors (console : Console) : List FileRecord → Script Unit
  | [] => return
  | record :: records => do
    if record.status = .errored then
      console.warning (record.path ++ ": " ++ record.error.getD "unknown error")
    tellErrors console records

/-- Tells about a batch whose report lies at a path, if it could be filed. -/
def BatchReport.tell (report : BatchReport) (console : Console) (path : Option Path) :
    Script Unit := do
  console.heading (report.ruleSet ++ " batch " ++ toString report.startIndex ++ ".." ++
    toString report.endIndex ++ " of " ++ toString report.totalFiles)
  console.info ("processed=" ++ toString report.processedCount ++ " fixed=" ++
    toString report.fixedCount ++ " unchanged=" ++ toString report.unchangedCount ++
    " errored=" ++ toString report.errorCount ++ " skipped=" ++ toString report.skippedCount)
  console.info ("total_fixes=" ++ toString report.totalFixes ++ " remaining=" ++
    toString report.remainingCount)
  tellErrors console report.results
  if report.dryRun then console.info "dry run: no files were written"
  else if report.backupBypassed then
    console.warning "backups bypassed: rewritten files have no snapshot"
  match report.gate.status with
  | .passed => console.success "compile gate passed"
  | .skipped => console.info ("compile gate skipped: " ++ report.gate.outputTail)
  | status =>
    console.error ("compile gate " ++ status.label ++
      ": fix the code or run \u0060restore\u0060 before the next batch")
  match path with
  | some path => console.success ("batch report: " ++ path.text)
  | none =>
    console.error "batch report could not be written; the results above are the only record"
  if report.compileSuccess then
    if let some next := report.nextStart? then
      console.info ("next batch: --start " ++ toString next)

/-- The summary of a batch for programs. -/
def BatchReport.members (report : BatchReport) (console : Console) (path : Option Path) :
    List (String × Json) :=
  let status :=
    if path.isNone then "report_unwritten"
    else if report.compileSuccess then "ok"
    else "gate_failed"
  [ ("command", .string "run"),
    ("status", .string status),
    ("rule_set", .string report.ruleSet),
    ("report", .nullable (fun path => .string path.text) path),
    ("processed", .ofNat report.processedCount),
    ("fixed", .ofNat report.fixedCount),
    ("unchanged", .ofNat report.unchangedCount),
    ("errored", .ofNat report.errorCount),
    ("skipped", .ofNat report.skippedCount),
    ("total_fixes", .ofNat report.totalFixes),
    ("remaining", .ofNat report.remainingCount),
    ("next_start", .nullable .ofNat report.nextStart?),
    ("compile_success", .bool report.compileSuccess),
    ("gate", .string report.gate.status.label),
    ("dry_run", .bool report.dryRun),
    ("output_mode", console.mode)]

/-- What a run needs, once all of it is known to be sound. -/
structure RunPlan where
  batch : Batch
  files : Names
  window : Window
  outDir : Path

/-- Everything that comes before the first file is touched. -/
def RunOptions.plan (options : RunOptions) (console : Console) : Action RunPlan := do
  if options.batchSize = 0 then throw (.invalidArgument .zeroBatchSize)
  let setup ← Setup.load options.project.config
  let ruleSet ← (setup.ruleSet options.ruleSet : Except Fault _)
  let root ← options.project.resolveRoot
  let outDir := options.project.resolveOutDir root
  let backupDir := options.project.resolveBackupDir root
  prepareOutDir outDir
  let catalog := Catalog.skippingBackups { root } backupDir
  let files ← catalog.list (options.source.source setup)
  if options.start ≥ files.size then
    console.warning ("start index " ++ toString options.start ++ " is past the end of " ++
      toString files.size ++ " candidate files")
  let gate ← (options.gate? setup root outDir : Except Fault _)
  let vault : Vault := ⟨root, backupDir, options.refreshBackups⟩
  return {
    batch := {
      ruleSet, root, gate
      exclusion := setup.exclusion options.project.exclude
      vault := if options.dryRun || options.noBackup then none else some vault
      dryRun := options.dryRun }
    files, outDir
    window := ⟨options.start, options.batchSize⟩ }

/-- The command. -/
def RunOptions.perform (options : RunOptions) : Action Unit := do
  let console ← (Console.detect : Script _)
  let plan ← options.plan console
  let report ← (plan.batch.run plan.files plan.window : Script _)
  let store : ReportStore := ⟨plan.outDir⟩
  let filed ← (store.file report.fileName report.toJson).settle
  report.tell console filed.toOption
  console.summary (report.members console filed.toOption)
  match filed with
  | .error fault => throw (.reportUnwritten plan.outDir.text fault.message)
  | .ok _ =>
    if !report.compileSuccess then throw (.gateFailed report.gate.status.label)

end StyleTokens

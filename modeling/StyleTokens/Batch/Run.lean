/-
Running a batch.

A batch takes the files of one window through four phases: every file is read and
revised in memory; those that change are backed up; those that were backed up
are written; and the gate is run.  What goes wrong with one file stays with that
file.

* `Batch.prepare` — the first phase for one file;
* `Batch.secure` — the second phase: a file without a backup is not written;
* `Batch.commit` — the third phase for one file;
* `Batch.run` — all phases, and the report on them.

Design notes: between two phases each file of the window is either settled or
pending, in the order of the window, so no file can get lost or change places.
-/
import StyleTokens.Batch.Report
import StyleTokens.Gate.Check
import StyleTokens.Vault.Basic

namespace StyleTokens

/-- What a batch works with. -/
structure Batch where
  ruleSet : RuleSet
  exclusion : Exclusion
  root : Path
  vault : Option Vault := none
  gate : Option Gate := none
  dryRun : Bool := false

/-- A file whose new text is ready but not written. -/
structure Pending where
  /-- The file, relative to the root. -/
  file : String
  path : Path
  revision : Revision
  size : Nat
  deriving DecidableEq, Repr, Inhabited

namespace Pending

/-- The result when the new text is written. -/
def fixed (pending : Pending) : FileResult :=
  ⟨pending.file, .fixed pending.revision.fixes pending.size
    (Text.byteLength pending.revision.text) pending.revision.unmapped⟩

/-- The result when the new text is not written. -/
def errored (pending : Pending) (reason : String) : FileResult :=
  ⟨pending.file, .errored pending.size reason⟩

end Pending

/-- A file between two phases. -/
inductive Progress
  | settled (result : FileResult)
  | pending (write : Pending)
  deriving DecidableEq, Repr, Inhabited

/-- The write that is still to be made. -/
def Progress.pending? : Progress → Option Pending
  | settled _ => none
  | pending write => some write

namespace Batch

/-- Reads and revises one file. -/
def prepare (batch : Batch) (file : String) : Script Progress := do
  if batch.exclusion.excludes file then return .settled ⟨file, .skipped⟩
  let path := batch.root.under ⟨file⟩
  let size := ((← Script.request (.size path)).toOption).getD 0
  match ← Script.readText path with
  | .error cause => return .settled ⟨file, .errored size ("read failed: " ++ cause.message)⟩
  | .ok text =>
    let revision := batch.ruleSet.revise text.toList
    if revision.changed then return .pending ⟨file, path, revision, size⟩
    return .settled ⟨file, .unchanged size revision.unmapped⟩

/-- Reads and revises files in order. -/
def prepareAll (batch : Batch) : List String → Script (List Progress)
  | [] => return []
  | file :: files => do
    let progress ← batch.prepare file
    return progress :: (← batch.prepareAll files)

/-- What a snapshot means for a file: one that it does not cover is settled. -/
def accept (manifest : Manifest) : Progress → Progress
  | .settled result => .settled result
  | .pending write =>
    if manifest.covers write.file then .pending write
    else
      let reason := (manifest.failureFor? write.file).getD "no backup entry"
      .settled (write.errored ("backup failed: " ++ reason))

/-- What a failed snapshot means for a file. -/
def refuse (fault : Fault) : Progress → Progress
  | .settled result => .settled result
  | .pending write => .settled (write.errored ("backup failed: " ++ fault.message))

/-- Backs up the files that are pending.  Tells whether a manifest was written. -/
def secure (batch : Batch) (files : List Progress) : Script (Bool × List Progress) := do
  match batch.vault with
  | none => return (false, files)
  | some vault =>
    let pending := files.filterMap Progress.pending?
    if pending.isEmpty then return (false, files)
    match ← Action.attempt (vault.snapshot (pending.map (·.file))) with
    | .ok manifest => return (true, files.map (accept manifest))
    | .error fault => return (false, files.map (refuse fault))

/-- Writes one file that is pending. -/
def commit : Progress → Script FileResult
  | .settled result => return result
  | .pending write => do
    match ← Script.request (.write write.path (String.ofList write.revision.text).toUTF8) with
    | .ok _ => return write.fixed
    | .error cause => return write.errored ("write failed: " ++ cause.message)

/-- Writes files in order. -/
def commitAll : List Progress → Script (List FileResult)
  | [] => return []
  | file :: files => do
    let result ← commit file
    return result :: (← commitAll files)

/-- The result of a file in a dry run. -/
def predicted : Progress → FileResult
  | .settled result => result
  | .pending write => write.fixed

/-- The results of the files of a window, and whether a manifest was written. -/
def process (batch : Batch) (files : List String) : Script (Bool × List FileResult) := do
  let prepared ← batch.prepareAll files
  if batch.dryRun then return (false, prepared.map predicted)
  let (manifest, secured) ← batch.secure prepared
  return (manifest, ← commitAll secured)

/-- Runs the gate after the files from `start` to `stop`. -/
def verify (batch : Batch) (start stop : Nat) : Script GateSummary := do
  if batch.dryRun then return .skipped "dry run"
  match batch.gate with
  | none => return .skipped "no gate command configured"
  | some gate =>
    let stem := batch.ruleSet.name ++ "-batch-" ++ toString start ++ "-" ++ toString stop
    return (← { gate with stem }.summary).2

/-- Runs the batch on a window of a listing. -/
def run (batch : Batch) (files : Names) (window : Window) : Script BatchReport := do
  let (manifest, results) ← batch.process (window.of files.toList)
  let gate ← batch.verify window.start (window.start + results.length)
  let report :=
    BatchReport.ofResults batch.ruleSet.name window files.size results gate
      (← Script.request .now)
  return {
    report with
    dryRun := batch.dryRun
    backupBypassed := !batch.dryRun && batch.vault.isNone
    backupManifest := if manifest then batch.vault.map (·.manifestPath.plain) else none }

end Batch

end StyleTokens

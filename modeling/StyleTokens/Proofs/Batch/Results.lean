/-
Every file of a window gets one result.

Whatever goes wrong with single files, a batch ends with one result for each file
of its window, in the order of the window, and the counts of its report are the
counts of those results.

* `Progress.path` — the file that stands between two phases; no phase changes it;
* `process_obeys` — the results are those of the files, in order;
* `BatchReport.Accounts` — a report that accounts for all files of a window;
* `results_run` — its results are the records of what became of the files;
* `run_accounts` — the report of a batch is one.
-/
import StyleTokens.Batch.Run
import StyleTokens.Proofs.World.Conduct

namespace StyleTokens

theorem Script.readText_obeys {may : Request → Prop} {path : Path} (h : may (.read path)) :
    (Script.readText path).Obeys may fun _ => True := by
  refine .ask h fun reply => ?_
  cases reply with
  | error cause => exact .pure trivial
  | ok data =>
    dsimp only
    split <;> exact .pure trivial

/-- The file that a batch is at work on. -/
def Progress.path : Progress → String
  | settled result => result.path
  | pending write => write.file

namespace Batch

/-! ### The phases -/

theorem prepare_obeys (batch : Batch) (file : String) :
    (batch.prepare file).Obeys Request.Reads fun progress => progress.path = file := by
  unfold prepare
  split
  · exact .pure rfl
  · refine .ask trivial fun size => ?_
    refine .bind (Script.readText_obeys trivial) fun read _ => ?_
    cases read with
    | error cause => exact .pure rfl
    | ok text =>
      show Script.Obeys _ _ (if (batch.ruleSet.revise text.toList).changed then pure _ else pure _)
      split
      · exact .pure rfl
      · exact .pure rfl

theorem prepareAll_obeys (batch : Batch) (files : List String) :
    (batch.prepareAll files).Obeys Request.Reads fun prepared =>
      prepared.map Progress.path = files := by
  induction files with
  | nil => exact .pure rfl
  | cons file files ih =>
    refine .bind (batch.prepare_obeys file) fun progress hfile => ?_
    refine .bind ih fun others hfiles => .pure ?_
    rw [List.map_cons, hfile, hfiles]

theorem path_accept (manifest : Manifest) (progress : Progress) :
    (accept manifest progress).path = progress.path := by
  cases progress with
  | settled result => rfl
  | pending write =>
    rw [accept]
    split <;> rfl

theorem path_refuse (fault : Fault) (progress : Progress) :
    (refuse fault progress).path = progress.path := by
  cases progress <;> rfl

theorem secure_obeys (batch : Batch) (files : List Progress) :
    (batch.secure files).Obeys (fun _ => True) fun secured =>
      secured.2.map Progress.path = files.map Progress.path := by
  unfold secure
  split
  · exact .pure rfl
  · next vault _ =>
    show Script.Obeys _ _ (if (files.filterMap Progress.pending?).isEmpty then _ else _)
    split
    · exact .pure rfl
    · refine .bind (.any _) fun snapshot _ => ?_
      cases snapshot with
      | ok manifest => exact .pure (by simp [path_accept])
      | error fault => exact .pure (by simp [path_refuse])

theorem commit_obeys (progress : Progress) :
    (commit progress).Obeys (fun _ => True) fun result => result.path = progress.path := by
  cases progress with
  | settled result => exact .pure rfl
  | pending write =>
    refine .ask trivial fun reply => ?_
    cases reply with
    | ok _ => exact .pure rfl
    | error cause => exact .pure rfl

theorem commitAll_obeys (files : List Progress) :
    (commitAll files).Obeys (fun _ => True) fun results =>
      results.map (·.path) = files.map Progress.path := by
  induction files with
  | nil => exact .pure rfl
  | cons file files ih =>
    refine .bind (commit_obeys file) fun result hfile => ?_
    refine .bind ih fun others hfiles => .pure ?_
    rw [List.map_cons, List.map_cons, hfile, hfiles]

theorem path_predicted (progress : Progress) : (predicted progress).path = progress.path := by
  cases progress <;> rfl

/-- **The results are those of the files, in order**, whatever goes wrong. -/
theorem process_obeys (batch : Batch) (files : List String) :
    (batch.process files).Obeys (fun _ => True) fun processed =>
      processed.2.map (·.path) = files := by
  refine .bind (.mono (batch.prepareAll_obeys files) (fun _ _ => trivial) fun _ h => h)
    fun prepared hprepared => ?_
  split
  · refine .pure ?_
    rw [List.map_map, ← hprepared]
    exact List.map_congr_left fun progress _ => path_predicted progress
  · refine .bind (batch.secure_obeys prepared) fun secured hsecured => ?_
    refine .bind (commitAll_obeys secured.2) fun results hresults => .pure ?_
    rw [hresults, hsecured, hprepared]

/-! ### The report -/

end Batch

/-- A report that accounts for every file of a window. -/
structure BatchReport.Accounts (report : BatchReport) (files : List String) (window : Window) :
    Prop where
  /-- One result for each file, in order. -/
  paths : report.results.map (·.path) = (files.drop window.start).take window.size
  processedCount_eq : report.processedCount = report.results.length
  processedCount_eq_min : report.processedCount = min window.size (files.length - window.start)
  endIndex_eq : report.endIndex = window.start + report.processedCount
  endIndex_le : report.endIndex ≤ Window.limit
  remainingCount_eq : report.remainingCount = files.length - report.endIndex
  counts : report.fixedCount + report.unchangedCount + report.errorCount + report.skippedCount =
    report.processedCount
  successCount_eq : report.successCount = report.fixedCount + report.unchangedCount
  /-- All fixes of the fixed files, and no others. -/
  totalFixes_eq : report.totalFixes =
    Count.total ((report.results.filter (·.status = .fixed)).map fun record =>
      Count.total (record.fixes.map (·.count)))

/-- The files of a window are files of the listing, in its order. -/
theorem Window.of_sublist (window : Window) (files : List String) :
    (window.of files).Sublist files :=
  (List.drop_sublist _ _).trans (List.take_sublist _ _)

/-- The window shows the files from its start on, as many as it has room for. -/
theorem Window.of_eq (window : Window) {files : List String} (h : files.length ≤ limit) :
    window.of files = (files.drop window.start).take window.size := by
  rw [Window.of, stop, List.drop_take]
  by_cases hs : window.start + window.size ≤ limit
  · rw [Nat.min_eq_left hs, Nat.add_sub_cancel_left]
  · rw [Nat.min_eq_right (by omega), List.take_of_length_le, List.take_of_length_le]
    · rw [List.length_drop]
      omega
    · rw [List.length_drop]
      omega

namespace BatchReport

/-- Every record is in one state. -/
theorem count_add_count (records : List FileRecord) :
    count .fixed records + count .unchanged records + count .errored records +
      count .skipped records = records.length := by
  induction records with
  | nil => rfl
  | cons record records ih =>
    simp only [count, List.filter_cons, List.length_cons] at ih ⊢
    cases record.status <;> simp <;> omega

/-- Only a file that was fixed has fixes. -/
theorem fixes_of_not_fixed (result : FileResult) (h : result.record.status ≠ .fixed) :
    result.record.fixes = [] := by
  obtain ⟨path, outcome⟩ := result
  cases outcome with
  | fixed fixes size sizeAfter unmapped => exact absurd rfl h
  | _ => rfl

theorem total_fixCount (results : List FileResult) :
    Count.total ((results.map FileResult.record).map FileRecord.fixCount) =
      Count.total (((results.map FileResult.record).filter (·.status = .fixed)).map fun record =>
        Count.total (record.fixes.map (·.count))) := by
  induction results with
  | nil => rfl
  | cons result results ih =>
    rw [List.map_cons, List.map_cons, Count.total, ih, FileRecord.fixCount, List.filter_cons]
    by_cases h : result.record.status = .fixed
    · rw [if_pos (by simpa using h), List.map_cons, Count.total]
    · rw [if_neg (by simpa using h), fixes_of_not_fixed result h, List.map_nil, Count.total,
        Nat.zero_add]

end BatchReport

namespace Batch

/-- The report on a batch, from what became of its files. -/
def reportOn (batch : Batch) (files : Names) (window : Window)
    (processed : Bool × List FileResult) (gate : GateSummary) (timestamp : String) :
    BatchReport :=
  { BatchReport.ofResults batch.ruleSet.name window files.size processed.2 gate timestamp with
    dryRun := batch.dryRun
    backupBypassed := !batch.dryRun && batch.vault.isNone
    backupManifest := if processed.1 then batch.vault.map (·.manifestPath.plain) else none }

/-- A run in its three parts. -/
theorem run_eq (batch : Batch) (files : Names) (window : Window) :
    batch.run files window = do
      let processed ← batch.process (window.of files.toList)
      let gate ← batch.verify window.start (window.start + processed.2.length)
      let timestamp ← Script.request .now
      return batch.reportOn files window processed gate timestamp := rfl

/-- The report of a run is one on what became of its files. -/
theorem run_reports (world : FallibleHost) (batch : Batch) (files : Names) (window : Window) :
    ∃ gate timestamp, (world.run (batch.run files window)).1 =
      batch.reportOn files window (world.run (batch.process (window.of files.toList))).1 gate
        timestamp := by
  rw [run_eq, FallibleHost.run_bind, FallibleHost.run_bind, FallibleHost.run_bind]
  exact ⟨_, _, rfl⟩

/-- The results of a run are the records of what became of its files. -/
theorem results_run (world : FallibleHost) (batch : Batch) (files : Names) (window : Window) :
    (world.run (batch.run files window)).1.results =
      (world.run (batch.process (window.of files.toList))).1.2.map FileResult.record := by
  obtain ⟨gate, timestamp, hreport⟩ := run_reports world batch files window
  rw [hreport]
  rfl

theorem reportOn_accounts (batch : Batch) (files : Names) (window : Window)
    {processed : Bool × List FileResult} (gate : GateSummary) (timestamp : String)
    (hpaths : processed.2.map (·.path) = window.of files.toList)
    (hfiles : files.size ≤ Window.limit) (hstart : window.start ≤ Window.limit) :
    (batch.reportOn files window processed gate timestamp).Accounts files.toList window := by
  obtain ⟨manifest, results⟩ := processed
  rw [window.of_eq hfiles] at hpaths
  have hfiles' : files.toList.length ≤ Window.limit := hfiles
  have hlen : (results.map FileResult.record).length =
      min window.size (files.toList.length - window.start) := by
    have := congrArg List.length hpaths
    rw [List.length_map, List.length_take, List.length_drop] at this
    rw [List.length_map, this]
  have hpath : ∀ result : FileResult, result.record.path = result.path := by
    rintro ⟨path, outcome⟩
    cases outcome <;> rfl
  exact {
    paths := by
      rw [← hpaths]
      show (results.map FileResult.record).map (·.path) = results.map (·.path)
      rw [List.map_map]
      exact List.map_congr_left fun result _ => hpath result
    processedCount_eq := rfl
    processedCount_eq_min := hlen
    endIndex_eq := rfl
    endIndex_le := by
      show window.start + (results.map FileResult.record).length ≤ Window.limit
      omega
    remainingCount_eq := by
      show Window.remaining files.toList.length window.start (results.map FileResult.record).length =
        files.toList.length - (window.start + (results.map FileResult.record).length)
      rw [Window.remaining]
      omega
    counts := BatchReport.count_add_count _
    successCount_eq := rfl
    totalFixes_eq := BatchReport.total_fixCount results }

/-- The report on a window accounts for it, whatever the world replies. -/
theorem run_obeys (batch : Batch) (files : Names) (window : Window)
    (hfiles : files.size ≤ Window.limit) (hstart : window.start ≤ Window.limit) :
    (batch.run files window).Obeys (fun _ => True) fun report =>
      report.Accounts files.toList window ∧ report.startIndex = window.start := by
  rw [run_eq]
  refine .bind (batch.process_obeys _) fun processed hpaths => ?_
  refine .bind (.any _) fun gate _ => ?_
  refine .ask trivial fun timestamp => .pure ⟨?_, rfl⟩
  exact batch.reportOn_accounts files window gate timestamp hpaths hfiles hstart

end Batch

/-! ### A small project -/

namespace Sample

/-- The rule set that gives the length four a token. -/
def ruleSet : RuleSet where
  name := "radius"
  rules := [{
    id := "four"
    category := .radius
    description := ""
    splitValues := false
    source := "(?<value>4)"
    pattern := .group valueGroup (.one (.single '4')) }]
  table := ⟨[((.radius, ['4']), "var(--four)")], by decide⟩
  rules_ne_nil := by simp
  distinct := by simp

/-- Two files with the length four, and one without. -/
def disk : Disk where
  entries := [
    (["p"], .directory),
    (["p", "a.css"], .file "4".toUTF8),
    (["p", "b.css"], .file "5".toUTF8),
    (["p", "c.css"], .file "4".toUTF8)]
  here := ["p"]

/-- The names of the files. -/
def files : Names :=
  ⟨["a.css", "b.css", "c.css"], by decide⟩

/-- A world in which only certain files can be written. -/
def world (writable : Path → Bool) : FallibleHost where
  host := { disk }
  refusal := fun _ request =>
    match request with
    | .write path _ => if writable path then none else some .permissionDenied
    | _ => none

/-- The batch that gives the files of the project their tokens, with backups. -/
def batch : Batch where
  ruleSet
  exclusion := ⟨.empty⟩
  root := ⟨"/p"⟩
  vault := some ⟨⟨"/p"⟩, ⟨"/p/backups"⟩, false⟩

end Sample

/-! ### Runs -/

/-- **No file of a batch is lost or changes places**, whatever goes wrong. -/
theorem Batch.run_accounts (world : FallibleHost) (batch : Batch) (files : Names) (window : Window)
    (hfiles : files.size ≤ Window.limit) (hstart : window.start ≤ Window.limit) :
    (world.run (batch.run files window)).1.Accounts files.toList window := by
  rw [Batch.run_eq, FallibleHost.run_bind, FallibleHost.run_bind, FallibleHost.run_bind]
  exact Batch.reportOn_accounts batch files window _ _ (batch.process_obeys _).result hfiles hstart

/-- A window with more room than there are numbers, in a project where no file can be
written. -/
theorem Sample.accounts_of_huge_window :
    files.size ≤ Window.limit ∧ 1 ≤ Window.limit ∧
      ((world fun _ => false).run (batch.run files ⟨1, Window.limit⟩)).1.Accounts
        ["a.css", "b.css", "c.css"] ⟨1, Window.limit⟩ :=
  ⟨by decide, by decide, Batch.run_accounts _ _ _ _ (by decide) (by decide)⟩

end StyleTokens

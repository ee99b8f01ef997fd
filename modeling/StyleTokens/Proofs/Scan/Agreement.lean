/-
A scan finds what a run will do.

A scan and a run go over the same files in loops of their own, and what they report is
filtered in different ways: the scan leaves out rules without matches and files without
literals, the run rules that replaced nothing.  What is left out never counts, so that
the two reports agree file by file and in their sums.

* `Inspection.Fits` — what a scan and a run have found in one file;
* `IssueReport.mappedIn`, `unmappedIn` — what a scan tells about a file;
* `IssueReport.Agrees` — a scan and a run that tell the same;
* `scan_agrees` — a scan and a dry run of the same project do.
-/
import Mathlib.Data.List.Nodup
import StyleTokens.Proofs.Batch.Prediction
import StyleTokens.Proofs.Batch.Steady
import StyleTokens.Proofs.Revision.Tallies
import StyleTokens.Scan

namespace StyleTokens

open FallibleHost

variable {world later : FallibleHost}

/-! ### Sums -/

theorem sumOf_addCounts (counts more : List (String × Nat)) :
    sumOf (addCounts counts more) = sumOf counts + sumOf more := by
  induction more generalizing counts with
  | nil => rfl
  | cons head more ih =>
    have hrest := ih (addCount head.1 head.2 counts)
    rw [sumOf_addCount] at hrest
    show sumOf (addCounts (addCount head.1 head.2 counts) more) =
      sumOf counts + (head.2 + sumOf more)
    omega

theorem sumOf_foldl_addCounts (counts : List (String × Nat)) (more : List (List (String × Nat))) :
    sumOf (more.foldl addCounts counts) = sumOf counts + Count.total (more.map sumOf) := by
  induction more generalizing counts with
  | nil => rfl
  | cons head more ih =>
    rw [List.foldl_cons, ih, sumOf_addCounts, List.map_cons, Count.total, Nat.add_assoc]

/-! ### Tallies -/

namespace FileIssues

/-- The literals without a token, rule by rule. -/
def literals (issues : FileIssues) : List (List (String × Nat)) :=
  issues.rules.map (·.unmappedLiterals)

variable {revision : Revision} (path : String)

theorem mapped_ofRevision (h : ∀ tally ∈ revision.tallies, tally.Sound) :
    (ofRevision path revision).mapped = revision.replaced :=
  Count.total_filter fun tally ht hno => (h tally ht).replaced_of_no_match (by simpa using hno)

theorem unmapped_ofRevision (h : ∀ tally ∈ revision.tallies, tally.Sound) :
    (ofRevision path revision).unmapped = revision.unmapped :=
  Count.total_filter fun tally ht hno => (h tally ht).unmapped_of_no_match (by simpa using hno)

theorem sumOf_literals_ofRevision (h : ∀ tally ∈ revision.tallies, tally.Sound) :
    Count.total ((ofRevision path revision).literals.map sumOf) =
      (ofRevision path revision).unmapped := by
  rw [unmapped, literals, List.map_map]
  refine congrArg Count.total (List.map_congr_left fun tally ht => ?_)
  exact (h tally (List.mem_filter.1 ht).1).sumOf_literals

end FileIssues

/-- The counts by literal of all files add up. -/
theorem sumOf_literals_of_scanned (scanned : List FileIssues) :
    sumOf (((scanned.map (·.rules)).flatten.map (·.unmappedLiterals)).foldl addCounts []) =
      Count.total (scanned.map fun issues => Count.total (issues.literals.map sumOf)) := by
  rw [sumOf_foldl_addCounts, show sumOf [] = 0 from rfl, Nat.zero_add]
  induction scanned with
  | nil => rfl
  | cons issues scanned ih =>
    rw [List.map_cons, List.flatten_cons, List.map_append, List.map_append, Count.total_append, ih]
    rfl

/-! ### One file -/

/-- What a scan has found in a file that a run could read. -/
structure FileIssues.Fits (issues : FileIssues) (record : FileRecord) : Prop where
  path : issues.path = record.path
  status : record.status = if 0 < issues.mapped then .fixed else .unchanged
  fixCount : record.fixCount = issues.mapped
  unmapped : record.unmapped = issues.unmapped
  literals : Count.total (issues.literals.map sumOf) = issues.unmapped

/-- What a scan and a run have found in one file. -/
inductive Inspection.Fits : Inspection → FileRecord → Prop
  | skipped {record : FileRecord} {file : String} (path : file = record.path)
    (status : record.status = .skipped) (fixCount : record.fixCount = 0)
    (unmapped : record.unmapped = 0) : Fits (.skipped file) record
  | errored {record : FileRecord} {error : ScanError} (path : error.path = record.path)
    (status : record.status = .errored) (fixCount : record.fixCount = 0)
    (unmapped : record.unmapped = 0) : Fits (.errored error) record
  | scanned {record : FileRecord} {issues : FileIssues} (h : issues.Fits record) :
    Fits (.scanned issues) record

/-- **A scan and a run find the same in a file.** -/
theorem Batch.inspect_fits (h : world.Steady) (batch : Batch) (file : String) :
    Inspection.Fits
      (world.run (inspect batch.ruleSet batch.exclusion batch.root file)).1
      (predicted (world.run (batch.prepare file)).1).record := by
  rw [run_prepare h]
  unfold inspect judge
  split
  · exact .skipped rfl rfl rfl rfl
  · rw [run_bind]
    cases (world.run (Script.readText (batch.root.under ⟨file⟩))).1 with
    | error cause => exact .errored rfl rfl rfl rfl
    | ok text =>
      have hsound := batch.ruleSet.revise_sound text.toList
      have hmapped := FileIssues.mapped_ofRevision file hsound
      have hunmapped := FileIssues.unmapped_ofRevision file hsound
      have hliterals := FileIssues.sumOf_literals_ofRevision file hsound
      dsimp only
      by_cases hchanged : (batch.ruleSet.revise text.toList).changed = true
      · rw [if_pos hchanged]
        refine .scanned ⟨rfl, ?_, ?_, hunmapped.symm, hliterals⟩
        · rw [hmapped, if_pos (by simpa [Revision.changed] using hchanged)]
          rfl
        · rw [hmapped]
          exact Revision.total_fixes _
      · have hnone : (batch.ruleSet.revise text.toList).replaced = 0 := by
          simpa [Revision.changed] using hchanged
        rw [if_neg hchanged]
        refine .scanned ⟨rfl, ?_, ?_, hunmapped.symm, hliterals⟩
        · rw [hmapped, hnone]
          rfl
        · rw [hmapped, hnone]
          rfl

theorem run_inspect_of_sameAt (h : world.Steady) {set : RuleSet} {exclusion : Exclusion}
    {root : Path} {file : String} (hsame : world.SameAt later (root.under ⟨file⟩)) :
    (later.run (inspect set exclusion root file)).1 =
      (world.run (inspect set exclusion root file)).1 := by
  unfold inspect
  split
  · rfl
  · rw [run_bind, run_bind, h.run_readText hsame]
    cases (world.run (Script.readText (root.under ⟨file⟩))).1 <;> rfl

theorem inspect_obeys (set : RuleSet) (exclusion : Exclusion) (root : Path) (file : String) :
    (inspect set exclusion root file).Obeys Request.Reads fun _ => True := by
  unfold inspect
  split
  · exact .pure trivial
  · refine .bind (Script.readText_obeys trivial) fun read _ => ?_
    cases read with
    | error cause => exact .pure trivial
    | ok text => exact .pure trivial

theorem run_inspectAll (h : world.Steady) {set : RuleSet} {exclusion : Exclusion} {root : Path}
    {files : List String} (hsame : ∀ file ∈ files, world.SameAt later (root.under ⟨file⟩)) :
    (later.run (inspectAll set exclusion root files)).1 =
      files.map fun file => (world.run (inspect set exclusion root file)).1 := by
  induction files generalizing later with
  | nil => rfl
  | cons file files ih =>
    rw [inspectAll, run_bind, run_bind, List.map_cons,
      run_inspect_of_sameAt h (hsame file List.mem_cons_self)]
    refine congrArg (_ :: ·) (ih fun other ho => ?_)
    exact (hsame other (List.mem_cons_of_mem _ ho)).trans
      (.of_reads (inspect_obeys set exclusion root file) later _)

/-! ### All files -/

namespace FileIssues.Fits

variable {issues : FileIssues} {record : FileRecord}

theorem status_cases (h : issues.Fits record) :
    record.status = .fixed ∧ 0 < issues.mapped ∨
      record.status = .unchanged ∧ issues.mapped = 0 := by
  by_cases hmapped : 0 < issues.mapped
  · exact Or.inl ⟨h.status.trans (if_pos hmapped), hmapped⟩
  · exact Or.inr ⟨h.status.trans (if_neg hmapped), by omega⟩

end FileIssues.Fits

section Lists

variable {inspections : List Inspection} {records : List FileRecord}

/-- What was found in the files that were read. -/
def scannedIn (inspections : List Inspection) : List FileIssues :=
  inspections.filterMap Inspection.scanned?

theorem skipped_of_fits (h : List.Forall₂ Inspection.Fits inspections records) :
    inspections.filterMap Inspection.skipped? =
      (records.filter (·.status = .skipped)).map (·.path) := by
  induction h with
  | nil => rfl
  | cons hfile _ ih =>
    cases hfile with
    | skipped path status => simp [Inspection.skipped?, path, status, ih]
    | errored _ status => simpa [List.filterMap_cons, Inspection.skipped?, status] using ih
    | scanned hissues =>
      rcases hissues.status_cases with ⟨status, -⟩ | ⟨status, -⟩ <;>
        simpa [List.filterMap_cons, Inspection.skipped?, status] using ih

theorem errors_of_fits (h : List.Forall₂ Inspection.Fits inspections records) :
    (inspections.filterMap Inspection.errored?).map (·.path) =
      (records.filter (·.status = .errored)).map (·.path) := by
  induction h with
  | nil => rfl
  | cons hfile _ ih =>
    cases hfile with
    | skipped _ status => simpa [List.filterMap_cons, Inspection.errored?, status] using ih
    | errored path status => simpa [List.filterMap_cons, Inspection.errored?, path, status] using ih
    | scanned hissues =>
      rcases hissues.status_cases with ⟨status, -⟩ | ⟨status, -⟩ <;>
        simpa [List.filterMap_cons, Inspection.errored?, status] using ih

theorem length_scanned_of_fits (h : List.Forall₂ Inspection.Fits inspections records) :
    (scannedIn inspections).length =
      BatchReport.count .fixed records + BatchReport.count .unchanged records := by
  unfold scannedIn BatchReport.count
  induction h with
  | nil => rfl
  | cons hfile _ ih =>
    cases hfile with
    | skipped _ status => simpa [List.filterMap_cons, Inspection.scanned?, status] using ih
    | errored _ status => simpa [List.filterMap_cons, Inspection.scanned?, status] using ih
    | scanned hissues =>
      rcases hissues.status_cases with ⟨status, -⟩ | ⟨status, -⟩ <;>
        simp [Inspection.scanned?, status, ih] <;> omega

/-- The paths of the files that were read, in the order of all files. -/
theorem sublist_scanned_of_fits (h : List.Forall₂ Inspection.Fits inspections records) :
    ((scannedIn inspections).map (·.path)).Sublist (records.map (·.path)) := by
  unfold scannedIn
  induction h with
  | nil => exact .slnil
  | cons hfile _ ih =>
    cases hfile with
    | skipped _ _ _ _ => exact ih.cons _
    | errored _ _ _ _ => exact ih.cons _
    | scanned hissues =>
      rw [List.map_cons, ← hissues.path]
      exact ih.cons_cons _

/-- Sums over the files that were read are sums over all files, when what is added up
agrees file by file and is nothing for the others. -/
theorem total_scanned_of_fits (h : List.Forall₂ Inspection.Fits inspections records)
    {f : FileIssues → Nat} {g : FileRecord → Nat}
    (hread : ∀ issues record, FileIssues.Fits issues record → f issues = g record)
    (hother : ∀ record, record.fixCount = 0 → record.unmapped = 0 → g record = 0) :
    Count.total ((scannedIn inspections).map f) = Count.total (records.map g) := by
  unfold scannedIn
  induction h with
  | nil => rfl
  | cons hfile _ ih =>
    rw [List.map_cons, Count.total, ← ih]
    cases hfile with
    | skipped _ _ fixCount unmapped =>
      rw [hother _ fixCount unmapped, Nat.zero_add]
      rfl
    | errored _ _ fixCount unmapped =>
      rw [hother _ fixCount unmapped, Nat.zero_add]
      rfl
    | scanned hissues =>
      rw [← hread _ _ hissues]
      rfl

/-- A file that is neither left out nor unreadable was read by both. -/
theorem exists_scanned_of_fits (h : List.Forall₂ Inspection.Fits inspections records)
    {record : FileRecord} (hr : record ∈ records) (hs : record.status ≠ .skipped)
    (he : record.status ≠ .errored) :
    ∃ issues ∈ scannedIn inspections, issues.Fits record := by
  unfold scannedIn
  induction h with
  | nil => cases hr
  | @cons inspection _ inspections _ hfile _ ih =>
    rcases List.mem_cons.1 hr with rfl | hr
    · cases hfile with
      | skipped _ status => exact absurd status hs
      | errored _ status => exact absurd status he
      | scanned hissues => exact ⟨_, List.mem_cons_self, hissues⟩
    · obtain ⟨issues, hm, hissues⟩ := ih hr
      exact ⟨issues, ((List.sublist_cons_self _ _).filterMap _).subset hm, hissues⟩

/-- In a list without repetition, one can tell an element by its value. -/
theorem mem_map_filter_iff {α β : Type} {l : List α} {p : α → Bool} {f : α → β}
    (hnodup : (l.map f).Nodup) {a : α} (ha : a ∈ l) : f a ∈ (l.filter p).map f ↔ p a = true := by
  constructor
  · intro h
    obtain ⟨b, hb, heq⟩ := List.mem_map.1 h
    obtain ⟨hb, hp⟩ := List.mem_filter.1 hb
    rwa [← List.inj_on_of_nodup_map hnodup hb ha heq]
  · exact fun h => List.mem_map_of_mem (List.mem_filter.2 ⟨ha, h⟩)

end Lists

/-! ### The two reports -/

namespace IssueReport

/-- What a scan tells about a file, if it tells anything. -/
def issuesOf? (report : IssueReport) (path : String) : Option FileIssues :=
  report.details.find? (·.path = path)

/-- The literals of a file that have a token, none if there is nothing told. -/
def mappedIn (report : IssueReport) (path : String) : Nat :=
  ((report.issuesOf? path).map (·.mapped)).getD 0

/-- The literals of a file without a token, none if there is nothing told. -/
def unmappedIn (report : IssueReport) (path : String) : Nat :=
  ((report.issuesOf? path).map (·.unmapped)).getD 0

/-- A scan and a run of the same files that tell the same. -/
structure Agrees (report : IssueReport) (run : BatchReport) (files : List String) : Prop where
  paths : run.results.map (·.path) = files
  mem_skipped : ∀ record ∈ run.results, record.path ∈ report.skipped ↔ record.status = .skipped
  mem_errors : ∀ record ∈ run.results,
    record.path ∈ report.errors.map (·.path) ↔ record.status = .errored
  scannedCount_eq : report.scannedCount = run.fixedCount + run.unchangedCount
  /-- The files that both could read. -/
  read : ∀ record ∈ run.results, record.status ≠ .skipped → record.status ≠ .errored →
    (record.status = .fixed ↔ 0 < report.mappedIn record.path) ∧
      record.fixCount = report.mappedIn record.path ∧
      record.unmapped = report.unmappedIn record.path
  /-- The files with literals to look at, sorted and each once. -/
  ascending : report.files.Pairwise (· < ·)
  mem_files : ∀ path, path ∈ report.files ↔
    path ∈ files ∧ 0 < report.mappedIn path + report.unmappedIn path
  totalMapped_eq : report.totalMapped = run.totalFixes
  totalUnmapped_eq : report.totalUnmapped = Count.total (run.results.map (·.unmapped))
  sumOf_literals : sumOf report.unmappedLiterals = report.totalUnmapped

/-! #### What is told about a file -/

variable {report : IssueReport}

theorem issuesOf?_eq_some (h : report.files.Nodup) {issues : FileIssues}
    (hm : issues ∈ report.details) : report.issuesOf? issues.path = some issues := by
  have hsome : (report.issuesOf? issues.path).isSome := by
    rw [issuesOf?, List.find?_isSome]
    exact ⟨issues, hm, by simp⟩
  obtain ⟨other, hother⟩ := Option.isSome_iff_exists.1 hsome
  have hpath : other.path = issues.path := by simpa using List.find?_some hother
  rw [hother, List.inj_on_of_nodup_map h (List.mem_of_find?_eq_some hother) hm hpath]

/-- Of a file without literals nothing is told. -/
theorem issuesOf?_eq_none {path : String} (h : path ∉ report.files) :
    report.issuesOf? path = none := by
  rw [issuesOf?, List.find?_eq_none]
  intro issues hm hpath
  exact h (List.mem_map.2 ⟨issues, hm, by simpa using hpath⟩)

theorem mem_files_iff (h : report.files.Nodup) (hany : ∀ issues ∈ report.details, issues.any)
    {path : String} :
    path ∈ report.files ↔ 0 < report.mappedIn path + report.unmappedIn path := by
  constructor
  · intro hp
    obtain ⟨issues, hm, rfl⟩ := List.mem_map.1 hp
    rw [mappedIn, unmappedIn, issuesOf?_eq_some h hm]
    simpa [FileIssues.any] using hany issues hm
  · intro hp
    by_contra hno
    rw [mappedIn, unmappedIn, issuesOf?_eq_none hno] at hp
    exact Nat.lt_irrefl 0 hp

/-- What is told about a file is what was found in it: what is left out counts nothing. -/
theorem told_of_scanned {scanned : List FileIssues}
    (hdetails : report.details = scanned.filter FileIssues.any)
    (hnodup : (scanned.map (·.path)).Nodup) {issues : FileIssues} (hm : issues ∈ scanned) :
    report.mappedIn issues.path = issues.mapped ∧
      report.unmappedIn issues.path = issues.unmapped := by
  have hfiles : report.files = (scanned.filter FileIssues.any).map (·.path) :=
    congrArg (List.map FileIssues.path) hdetails
  by_cases hany : issues.any = true
  · have hsome : report.issuesOf? issues.path = some issues :=
      issuesOf?_eq_some (hfiles ▸ hnodup.sublist (List.filter_sublist.map _))
        (hdetails ▸ List.mem_filter.2 ⟨hm, hany⟩)
    rw [mappedIn, unmappedIn, hsome]
    exact ⟨rfl, rfl⟩
  · have hnone : report.issuesOf? issues.path = none := by
      apply issuesOf?_eq_none
      rwa [hfiles, mem_map_filter_iff hnodup hm]
    have hzero : issues.mapped = 0 ∧ issues.unmapped = 0 := by simpa [FileIssues.any] using hany
    rw [mappedIn, unmappedIn, hnone, hzero.1, hzero.2]
    exact ⟨rfl, rfl⟩

/-! #### The report on what was found -/

section Inspected

variable (ruleSet : String) (root : Path) (inspections : List Inspection) (timestamp : String)

theorem details_ofInspections : (ofInspections ruleSet root inspections timestamp).details =
    (scannedIn inspections).filter FileIssues.any :=
  rfl

/-- The files that are told about, in the order of those that were read. -/
theorem files_ofInspections : (ofInspections ruleSet root inspections timestamp).files.Sublist
    ((scannedIn inspections).map (·.path)) :=
  List.filter_sublist.map _

theorem totalMapped_ofInspections :
    (ofInspections ruleSet root inspections timestamp).totalMapped =
      Count.total ((scannedIn inspections).map (·.mapped)) := by
  refine Count.total_filter fun issues _ hno => ?_
  have hzero : issues.mapped = 0 ∧ issues.unmapped = 0 := by simpa [FileIssues.any] using hno
  exact hzero.1

theorem totalUnmapped_ofInspections :
    (ofInspections ruleSet root inspections timestamp).totalUnmapped =
      Count.total ((scannedIn inspections).map (·.unmapped)) := by
  refine Count.total_filter fun issues _ hno => ?_
  have hzero : issues.mapped = 0 ∧ issues.unmapped = 0 := by simpa [FileIssues.any] using hno
  exact hzero.2

theorem sumOf_unmappedLiterals_ofInspections :
    sumOf (ofInspections ruleSet root inspections timestamp).unmappedLiterals =
      Count.total ((scannedIn inspections).map fun issues =>
        Count.total (issues.literals.map sumOf)) :=
  sumOf_literals_of_scanned _

variable {inspections} {records : List FileRecord}

/-- What is told about a file that both could read. -/
theorem told_of_fits (h : List.Forall₂ Inspection.Fits inspections records)
    (hnodup : (records.map (·.path)).Nodup) {record : FileRecord} (hr : record ∈ records)
    (hs : record.status ≠ .skipped) (he : record.status ≠ .errored) :
    let report := ofInspections ruleSet root inspections timestamp
    (record.status = .fixed ↔ 0 < report.mappedIn record.path) ∧
      record.fixCount = report.mappedIn record.path ∧
      record.unmapped = report.unmappedIn record.path := by
  intro report
  obtain ⟨issues, hm, hissues⟩ := exists_scanned_of_fits h hr hs he
  obtain ⟨hmapped, hunmapped⟩ := told_of_scanned
    (details_ofInspections ruleSet root inspections timestamp)
    (hnodup.sublist (sublist_scanned_of_fits h)) hm
  rw [← hissues.path, hmapped, hunmapped]
  refine ⟨?_, hissues.fixCount, hissues.unmapped⟩
  rcases hissues.status_cases with ⟨status, hpos⟩ | ⟨status, hzero⟩
  · simp [status, hpos]
  · simp [status, hzero]

end Inspected

/-- The report on files in which a run has found the same. -/
theorem ofInspections_agrees {ruleSet timestamp : String} {root : Path}
    {inspections : List Inspection} {run : BatchReport} {files : List String}
    (h : List.Forall₂ Inspection.Fits inspections run.results)
    (hpaths : run.results.map (·.path) = files) (hascending : files.Pairwise (· < ·))
    (hfixed : run.fixedCount = BatchReport.count .fixed run.results)
    (hunchanged : run.unchangedCount = BatchReport.count .unchanged run.results)
    (hfixes : run.totalFixes = Count.total (run.results.map FileRecord.fixCount)) :
    (ofInspections ruleSet root inspections timestamp).Agrees run files := by
  have hnodup : (run.results.map (·.path)).Nodup := hpaths ▸ hascending.nodup
  -- the scan tells about files in the order of the listing
  have hfiles : (ofInspections ruleSet root inspections timestamp).files.Sublist files :=
    (files_ofInspections ruleSet root inspections timestamp).trans
      (hpaths ▸ sublist_scanned_of_fits h)
  have hany : ∀ issues ∈ (ofInspections ruleSet root inspections timestamp).details, issues.any :=
    fun issues hm => (List.mem_filter.1 hm).2
  have hunmapped : Count.total ((scannedIn inspections).map (·.unmapped)) =
      Count.total (run.results.map (·.unmapped)) :=
    total_scanned_of_fits h (fun _ _ hissues => hissues.unmapped.symm) fun _ _ hzero => hzero
  exact {
    paths := hpaths
    mem_skipped := fun record hr => by
      show record.path ∈ inspections.filterMap Inspection.skipped? ↔ _
      rw [skipped_of_fits h, mem_map_filter_iff hnodup hr, decide_eq_true_iff]
    mem_errors := fun record hr => by
      show record.path ∈ (inspections.filterMap Inspection.errored?).map (·.path) ↔ _
      rw [errors_of_fits h, mem_map_filter_iff hnodup hr, decide_eq_true_iff]
    scannedCount_eq := by
      rw [hfixed, hunchanged]
      exact length_scanned_of_fits h
    read := fun record hr hs he => told_of_fits ruleSet root timestamp h hnodup hr hs he
    ascending := hascending.sublist hfiles
    mem_files := fun path => by
      rw [← mem_files_iff ((hpaths ▸ hnodup).sublist hfiles) hany]
      exact ⟨fun hp => ⟨hfiles.subset hp, hp⟩, fun hp => hp.2⟩
    totalMapped_eq := by
      rw [totalMapped_ofInspections, hfixes]
      exact total_scanned_of_fits h (fun _ _ hissues => hissues.fixCount.symm)
        fun _ hzero _ => hzero
    totalUnmapped_eq := by
      rw [totalUnmapped_ofInspections, hunmapped]
    sumOf_literals := by
      rw [sumOf_unmappedLiterals_ofInspections, totalUnmapped_ofInspections, hunmapped]
      exact total_scanned_of_fits h
        (fun _ _ hissues => hissues.literals.trans hissues.unmapped.symm) fun _ _ hzero => hzero }

end IssueReport

/-- **A scan tells what a run will do**, file by file and in sum. -/
theorem scan_agrees (world : FallibleHost) (batch : Batch) (files : Names) (size : Nat)
    (hsteady : world.Steady) (hfiles : files.size ≤ Window.limit) (hsize : files.size ≤ size) :
    (world.run (scan batch.ruleSet batch.exclusion batch.root files)).1.Agrees
      (world.run ((batch.withDryRun true).run files ⟨0, size⟩)).1 files.toList := by
  have hwhole : Window.of ⟨0, size⟩ files.toList = files.toList := by
    rw [Window.of_eq _ hfiles, List.drop_zero, List.take_of_length_le hsize]
  have hall : ∀ file ∈ files.toList, world.SameAt world (batch.root.under ⟨file⟩) :=
    fun file _ => .refl world _
  have hprocessed :
      (world.run ((batch.withDryRun true).process (Window.of ⟨0, size⟩ files.toList))).1.2 =
        files.toList.map fun file => Batch.predicted (world.run (batch.prepare file)).1 := by
    rw [hwhole, Batch.process_eq_of_dry rfl, Batch.prepareAll_withDryRun, run_bind]
    show (world.run (batch.prepareAll files.toList)).1.map Batch.predicted = _
    rw [Batch.run_prepareAll hsteady hall, List.map_map]
    rfl
  obtain ⟨gate, timestamp, hrun⟩ := (batch.withDryRun true).run_reports world files ⟨0, size⟩
  have haccounts : (world.run ((batch.withDryRun true).run files ⟨0, size⟩)).1.Accounts
      files.toList ⟨0, size⟩ :=
    ((batch.withDryRun true).run_obeys files ⟨0, size⟩ hfiles (Nat.zero_le _)).result.1
  have hpaths := haccounts.paths
  rw [List.drop_zero, List.take_of_length_le hsize, hrun] at hpaths
  rw [scan, run_bind, run_bind, hrun]
  refine IssueReport.ofInspections_agrees ?_ hpaths files.ascending rfl rfl rfl
  show List.Forall₂ _ _ ((world.run (Batch.process _ _)).1.2.map FileResult.record)
  rw [hprocessed, run_inspectAll hsteady hall, List.map_map, List.forall₂_map_left_iff,
    List.forall₂_map_right_iff]
  exact List.forall₂_same.2 fun file _ => batch.inspect_fits hsteady file

/-- A world in which one of the files of the small project cannot be read. -/
def Sample.locked : FallibleHost where
  host := { disk }
  refusal := fun _ request =>
    match request with
    | .read path => if path.text = "/p/c.css" then some .permissionDenied else none
    | _ => none

/-- A file to fix, one that is left out, and one that cannot be read. -/
theorem Sample.scan_foretells_run :
    (locked.Steady ∧ files.size ≤ Window.limit ∧ files.size ≤ 3) ∧
      (locked.run (scan batch.ruleSet (.ofFragments ["b.css"]) batch.root files)).1.Agrees
        (locked.run (({ batch with exclusion := .ofFragments ["b.css"] }.withDryRun true).run
          files ⟨0, 3⟩)).1 files.toList :=
  ⟨⟨fun _ _ => rfl, by decide, by decide⟩,
    scan_agrees locked { batch with exclusion := .ofFragments ["b.css"] } files 3 (fun _ _ => rfl)
      (by decide) (by decide)⟩

end StyleTokens

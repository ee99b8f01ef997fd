/-
The report of a scan as a list of work.

A scan reports the files in which it has found something.  When the report is read, these
files are listed, and whoever goes over them finds what the scan has found.

* `IssueReport.written_toJson` — the entries that are written in the report of a scan;
* `Batch.details` — what a scan tells of files, and `details_again` — what it tells of those
  that it has told of;
* `Batch.totals_of_run` — what a run adds up to when nothing fails;
* `report_lists_work` — from a glob to a scan, to its report, and back to its files.

Design notes: between the two scans a file comes, the report, and perhaps directories for it.
So a path that could not be read before can be read later, but it is not among the files that
are reported.
-/
import StyleTokens.Proofs.Batch.Phases
import StyleTokens.Proofs.Catalog.Entries
import StyleTokens.Proofs.Catalog.Pruning
import StyleTokens.Proofs.Disk.Gain
import StyleTokens.Proofs.Json.Plain
import StyleTokens.Proofs.Json.Records
import StyleTokens.Proofs.Scan.Agreement

namespace StyleTokens

open FallibleHost

variable {world later : FallibleHost} {catalog : Catalog} {file : String} {files : List String}
  {path root : Path} {set : RuleSet} {exclusion : Exclusion}

/-! ### Entries that are read as they were written -/

/-- A text of white space has nothing left when that is taken away. -/
theorem Text.eq_empty_of_allBlank (ht : Text.trimmed file = file)
    (h : Text.allBlank file.toList = true) : file = "" := by
  have hnone : Text.trimLeft file.toList = [] := by
    rw [Text.trimLeft, List.dropWhile_eq_nil_iff]
    exact List.all_eq_true.1 h
  rw [← ht, Text.trimmed, Text.trim, hnone]
  rfl

/-- An entry in the form of the listings stands for itself. -/
theorem Catalog.entryPath_of_spelled (catalog : Catalog) (h : Path.Spelled file)
    (hrel : Path.isAbsolute ⟨file⟩ = false) (ht : Text.trimmed file = file) :
    catalog.entryPath file = .ok file := by
  have hup : Part.up ∉ (Path.mk file).parts := fun hm => h.ne_up (Path.up_mem_parts_iff.1 hm)
  unfold Catalog.entryPath
  dsimp only
  rw [ht, if_neg (by simpa using hup), hrel, if_neg (by simp), h.plain_eq]
  rfl

/-- Names in order are a set of names as they are. -/
theorem Names.toList_ofList (h : files.Pairwise (· < ·)) : (ofList files).toList = files :=
  congrArg Names.toList (Names.ext_mem (b := ⟨files, h⟩) fun _ => Names.mem_ofList)

namespace IssueReport

variable {report : IssueReport}

/-- The entries of the report of a scan are the files with literals. -/
theorem reportEntries_toJson {plain : Json}
    (h : report.toJson.plain? Json.depthLimit = some plain)
    (hblank : ∀ file ∈ report.files, Text.allBlank file.toList = false) :
    reportEntries? plain = some report.files := by
  obtain ⟨⟨members, rfl⟩, hmembers⟩ := Json.member?_plain h
  obtain ⟨inner, hinner, hfound⟩ := hmembers "files" (.strings report.files) rfl
  rw [Json.plain?_strings _ (by decide)] at hinner
  obtain rfl := Option.some.inj hinner
  have hitems : (report.files.map Json.string).filterMap reportEntry? = report.files := by
    rw [List.filterMap_map]
    exact List.filterMap_some
  rw [reportEntries?, hfound]
  show some (((report.files.map Json.string).filterMap reportEntry?).filter _) = _
  rw [hitems, List.filter_eq_self.2 fun file hf => by simp [hblank file hf]]

/-- **What is written in the report of a scan** are the files with literals, as long as 64 bits
hold its counts. -/
theorem written_toJson (path : Path) (hexact : report.toJson.Exact)
    (hblank : ∀ file ∈ report.files, Text.allBlank file.toList = false) :
    Catalog.written path (report.toJson.pretty ++ "\n") = .ok report.files := by
  obtain ⟨plain, hplain⟩ := Json.exists_plain report.toJson Json.depthLimit
    report.record.shallow_toJson
  exact Catalog.written_eq_ok (Json.read_pretty_line hexact) hplain
    (reportEntries_toJson hplain hblank)

end IssueReport

/-! ### Scanning again -/

/-- What was found in a file is about that file, which can be read. -/
theorem scanned_of_inspect {issues : FileIssues}
    (h : (world.run (inspect set exclusion root file)).1.scanned? = some issues) :
    issues.path = file ∧ ∃ data, world.disk.read (root.under ⟨file⟩) = .ok data := by
  unfold inspect at h
  split at h
  · cases h
  · rw [run_bind] at h
    cases hread : (world.run (Script.readText (root.under ⟨file⟩))).1 with
    | error cause =>
      rw [hread] at h
      cases h
    | ok text =>
      rw [hread] at h
      obtain rfl := Option.some.inj h
      obtain ⟨data, hdata, -⟩ := run_readText_ok hread
      exact ⟨rfl, data, hdata⟩

namespace Batch

variable {batch : Batch}

/-- What is found in a file. -/
def inspection (batch : Batch) (world : FallibleHost) (file : String) : Inspection :=
  (world.run (inspect batch.ruleSet batch.exclusion batch.root file)).1

/-- What is told of files: what is found in those that can be read, if that is anything. -/
def details (batch : Batch) (world : FallibleHost) (files : List String) : List FileIssues :=
  (scannedIn (files.map (batch.inspection world))).filter FileIssues.any

/-- The files that are told of are some of all, in their order. -/
theorem sublist_details (batch : Batch) (world : FallibleHost) (files : List String) :
    ((batch.details world files).map (·.path)).Sublist files := by
  refine (List.filter_sublist.map _).trans ?_
  induction files with
  | nil => exact .slnil
  | cons file files ih =>
    rw [List.map_cons, scannedIn, List.filterMap_cons]
    cases h : (batch.inspection world file).scanned? with
    | none => exact ih.cons _
    | some issues =>
      rw [List.map_cons, (scanned_of_inspect h).1]
      exact ih.cons_cons _

theorem scanned_of_mem_details {issues : FileIssues} (h : issues ∈ batch.details world files) :
    (batch.inspection world issues.path).scanned? = some issues := by
  obtain ⟨inspection, hi, hissues⟩ := List.mem_filterMap.1 (List.mem_filter.1 h).1
  obtain ⟨file, -, rfl⟩ := List.mem_map.1 hi
  rwa [(scanned_of_inspect hissues).1]

/-- **Of the files that were told of, the same is told again.** -/
theorem details_again (batch : Batch) (world : FallibleHost) (files : List String) :
    batch.details world ((batch.details world files).map (·.path)) = batch.details world files := by
  have hsame : scannedIn (((batch.details world files).map (·.path)).map (batch.inspection world)) =
      batch.details world files := by
    rw [scannedIn, List.filterMap_map, List.filterMap_map]
    exact (List.filterMap_congr fun _ => scanned_of_mem_details).trans List.filterMap_some
  rw [details, hsame, List.filter_eq_self]
  exact fun issues hm => (List.mem_filter.1 hm).2

end Batch

theorem scan_obeys (set : RuleSet) (exclusion : Exclusion) (root : Path) (files : Names) :
    (scan set exclusion root files).Obeys Request.Reads fun report => report.ruleSet = set.name := by
  have hall : ∀ files, (inspectAll set exclusion root files).Obeys Request.Reads fun _ => True := by
    intro files
    induction files with
    | nil => exact .pure trivial
    | cons file files ih =>
      exact .bind (inspect_obeys set exclusion root file) fun _ _ =>
        .bind ih fun _ _ => .pure trivial
  exact .bind (hall _) fun _ _ => .ask trivial fun _ => .pure rfl

/-- **A scan reports what is told of the files**, in a world where these show the same. -/
theorem run_scan (h : world.Steady) (batch : Batch) {names : Names}
    (hsame : ∀ file ∈ names.toList, world.SameAt later (batch.root.under ⟨file⟩)) :
    (later.run (scan batch.ruleSet batch.exclusion batch.root names)).1.details =
      batch.details world names.toList := by
  rw [scan, run_bind, run_bind, run_inspectAll h hsame]
  rfl

/-! ### Running -/

namespace Batch

variable {batch : Batch} {names : Names} {size : Nat}

/-- When nothing fails, every file becomes what it would in a dry run. -/
theorem run_process (h : world.Steady) (dryRun : Bool) (files : List String)
    (hs : dryRun = false → (batch.withDryRun false).Succeeds world files) :
    (world.run ((batch.withDryRun dryRun).process files)).1.2 =
      files.map fun file => predicted (world.run (batch.prepare file)).1 := by
  have hprepared : (world.run (batch.prepareAll files)).1 =
      files.map fun file => (world.run (batch.prepare file)).1 :=
    run_prepareAll h fun file _ => .refl world _
  cases dryRun with
  | true =>
    rw [process_eq_of_dry rfl, prepareAll_withDryRun, run_bind]
    show (world.run (batch.prepareAll files)).1.map predicted = _
    rw [hprepared, List.map_map]
    rfl
  | false =>
    rw [process_of_succeeds rfl (hs rfl), prepareAll_withDryRun, hprepared, List.map_map]
    rfl

/-- **What a run adds up to** when nothing fails: what a scan would find. -/
theorem totals_of_run (h : world.Steady) (dryRun : Bool) (hnames : names.size ≤ Window.limit)
    (hsize : names.size ≤ size)
    (hs : dryRun = false → (batch.withDryRun false).Succeeds world names.toList) :
    let run := (world.run ((batch.withDryRun dryRun).run names ⟨0, size⟩)).1
    run.totalFixes = Count.total ((batch.details world names.toList).map (·.mapped)) ∧
      Count.total (run.results.map (·.unmapped)) =
        Count.total ((batch.details world names.toList).map (·.unmapped)) := by
  intro run
  have hwhole : Window.of ⟨0, size⟩ names.toList = names.toList := by
    rw [Window.of_eq _ hnames, List.drop_zero, List.take_of_length_le hsize]
  obtain ⟨gate, timestamp, hrun⟩ := run_reports world (batch.withDryRun dryRun) names ⟨0, size⟩
  rw [hwhole] at hrun
  have hresults : run.results =
      names.toList.map fun file => (predicted (world.run (batch.prepare file)).1).record := by
    rw [show run = _ from hrun]
    show (world.run ((batch.withDryRun dryRun).process names.toList)).1.2.map FileResult.record = _
    rw [run_process h dryRun names.toList hs, List.map_map]
    rfl
  have hfixes : run.totalFixes = Count.total (run.results.map FileRecord.fixCount) := by
    rw [show run = _ from hrun]
    rfl
  have hfits : List.Forall₂ Inspection.Fits (names.toList.map (batch.inspection world))
      run.results := by
    rw [hresults, List.forall₂_map_left_iff, List.forall₂_map_right_iff]
    exact List.forall₂_same.2 fun file _ => batch.inspect_fits h file
  constructor
  · rw [hfixes]
    refine Eq.trans ?_ (IssueReport.totalMapped_ofInspections "" batch.root _ "").symm
    exact (total_scanned_of_fits hfits (fun _ _ hissues => hissues.fixCount.symm)
      fun _ hzero _ => hzero).symm
  · refine Eq.trans ?_ (IssueReport.totalUnmapped_ofInspections "" batch.root _ "").symm
    exact (total_scanned_of_fits hfits (fun _ _ hissues => hissues.unmapped.symm)
      fun _ _ hzero => hzero).symm

end Batch

/-! ### From a glob to the report and back -/

namespace FallibleHost

theorem refusal_of_run {α : Type} {script : Script α} {value : α}
    (h : world.run script = (value, later)) : later.refusal = world.refusal := by
  rw [← world.refusal_run script, h]

theorem Steady.reply_of_not_refused (h : world.Steady) {request : Request}
    (hrequest : world.refusal 0 request = none) :
    (world.reply request).1 = (world.host.reply request).1 := by
  rw [h.reply_eq, hrequest]
  rfl

/-- A report that is there and can be read is read. -/
theorem Steady.run_list_report (h : world.Steady) {text : String}
    (hread : world.disk.read (catalog.root.under path) = .ok text.toUTF8)
    (hpresent : world.refusal 0 (.present (catalog.root.under path)) = none)
    (hgranted : world.refusal 0 (.read (catalog.root.under path)) = none) :
    (world.run (catalog.list (.report path)).attempt).1 = do
      let listed ← (← Catalog.written (catalog.root.under path) text).mapM catalog.entryPath
      return .ofList listed := by
  generalize hunder : catalog.root.under path = target at *
  have hthere : (world.reply (.present target)).1 = true := by
    rw [h.reply_of_not_refused hpresent]
    exact Disk.present_of_read hread
  have hensured : world.run (Action.ensurePresent target).attempt =
      (.ok (), (world.reply (.present target)).2) := by
    rw [Action.ensurePresent, run_action_bind, run_action_lift, run_request]
    dsimp only
    rw [hthere]
    rfl
  have hsame : world.SameAt (world.reply (.present target)).2 target :=
    .of_reads (.request (.present _) trivial) world target
  have htext : ((world.reply (.present target)).2.run (Action.readText target).attempt).1 =
      .ok text := by
    rw [Action.readText, run_ofIo, h.run_readText hsame]
    have hreply : (world.reply (.read target)).1 = .ok text.toUTF8 :=
      (h.reply_of_not_refused hgranted).trans hread
    rw [Script.readText, run_bind, run_request, hreply]
    dsimp only
    rw [fromUTF8?_toUTF8]
    rfl
  subst hunder
  exact Catalog.run_list_report hensured htext

end FallibleHost

/-- **A file that a glob lists is an entry that stands for itself**, when no blanks are around
its path. -/
theorem Catalog.entry_of_listGlob {top : Place} {text : String} {names : Names}
    (htree : world.disk.IsTree)
    (hroot : world.disk.find true catalog.root = .ok (.at top .directory))
    (h : world.run (catalog.list (.glob text)).attempt = (.ok names, later))
    (hf : file ∈ names.toList) (ht : Text.trimmed file = file) :
    Text.allBlank file.toList = false ∧ catalog.entryPath file = .ok file := by
  constructor
  · -- only the root has an empty path, and that is no file
    rw [Bool.eq_false_iff]
    intro hblank
    obtain ⟨labels, data, hfile, hdata, -, hlabels⟩ := Catalog.exists_names htree hroot h hf
    have hempty : labels = [] := by
      rw [← Path.moves_intercalate hlabels, ← hfile, Text.eq_empty_of_allBlank ht hblank]
      rfl
    exact Disk.ne_nil_of_file (Disk.find_eq_ok_iff.1 hroot).2.entry?_at
      (Option.isSome_of_eq_some hdata) hempty
  · exact catalog.entryPath_of_spelled (Catalog.spelled_of_list htree.once htree.named h hf)
      (Catalog.isAbsolute_of_listGlob htree h hf) ht

/-- **A report that is filed is read back** as the files that it was made of. -/
theorem IssueReport.run_list_filed {report : IssueReport} {store : ReportStore} {name : String}
    {filed : FallibleHost} (h : world.Steady) (hexact : report.toJson.Exact)
    (hascending : report.files.Pairwise (· < ·))
    (hentries : ∀ file ∈ report.files,
      Text.allBlank file.toList = false ∧ catalog.entryPath file = .ok file)
    (hfile : world.run (store.file name report.toJson).attempt = (.ok path, filed))
    (habs : path.isAbsolute = true) (hpresent : world.refusal 0 (.present path) = none)
    (hgranted : world.refusal 0 (.read path) = none) :
    ∃ work, (filed.run (catalog.list (.report path)).attempt).1 = .ok work ∧
      work.toList = report.files := by
  have hunder : catalog.root.under path = path := if_pos habs
  obtain rfl : (world.run (store.file name report.toJson).attempt).2 = filed := by rw [hfile]
  have hread : (world.run (store.file name report.toJson).attempt).2.disk.read path =
      .ok (report.toJson.pretty ++ "\n").toUTF8 := by
    have hfiled := store.run_file name report.toJson world
    rw [congrArg Prod.fst hfile] at hfiled
    cases hfiled with
    | new read _ _ => exact read
  have hlisted : report.files.mapM catalog.entryPath = .ok report.files := by
    rw [mapM_eq_ok_iff, List.forall₂_same]
    exact fun file hf => (hentries file hf).2
  refine ⟨.ofList report.files, ?_, Names.toList_ofList hascending⟩
  rw [Steady.run_list_report (h.run _) (by rwa [hunder])
      (by rwa [hunder, FallibleHost.refusal_run]) (by rwa [hunder, FallibleHost.refusal_run]),
    IssueReport.written_toJson _ hexact fun file hf => (hentries file hf).1]
  show (do
    let listed ← report.files.mapM catalog.entryPath
    return Names.ofList listed) = _
  rw [hlisted]
  rfl

namespace Batch

variable {batch : Batch}

/-- **Of the files that were told of, the same is told later**, when nothing has been lost. -/
theorem details_later (h : world.Steady) (hrefusal : later.refusal = world.refusal)
    (hgains : world.disk.Gains later.disk) (batch : Batch) (files : List String) :
    batch.details later ((batch.details world files).map (·.path)) = batch.details world files := by
  have hsame : ((batch.details world files).map (·.path)).map (batch.inspection later) =
      ((batch.details world files).map (·.path)).map (batch.inspection world) := by
    refine List.map_congr_left fun file hf => run_inspect_of_sameAt h ?_
    obtain ⟨issues, hm, rfl⟩ := List.mem_map.1 hf
    obtain ⟨-, data, hdata⟩ := scanned_of_inspect (scanned_of_mem_details hm)
    exact ⟨hrefusal, (hgains.read hdata).trans hdata.symm,
      (Disk.size_of_read (hgains.read hdata)).trans (Disk.size_of_read hdata).symm⟩
  rw [details, hsame]
  exact batch.details_again world files

/-- Files that are worked on as a scan has reported: another scan of them finds the same, and a
run over them, dry or with nothing that fails, adds up to the same. -/
structure Repeats (batch : Batch) (world : FallibleHost) (report : IssueReport) (work : Names) :
    Prop where
  files : work.toList = report.files
  details : (world.run (scan batch.ruleSet batch.exclusion batch.root work)).1.details =
    report.details
  mapped : (world.run (scan batch.ruleSet batch.exclusion batch.root work)).1.totalMapped =
    report.totalMapped
  unmapped : (world.run (scan batch.ruleSet batch.exclusion batch.root work)).1.totalUnmapped =
    report.totalUnmapped
  run : ∀ dryRun size, work.size ≤ size →
    (dryRun = false → (batch.withDryRun false).Succeeds world work.toList) →
    let run := (world.run ((batch.withDryRun dryRun).run work ⟨0, size⟩)).1
    run.totalFixes = report.totalMapped ∧
      Count.total (run.results.map (·.unmapped)) = report.totalUnmapped

/-- What is told of some files is told of them again, by a scan and by a run. -/
theorem repeats_of_details {report : IssueReport} {work : Names} (h : world.Steady)
    (hnames : work.size ≤ Window.limit) (hfiles : work.toList = report.files)
    (hdetails : batch.details world work.toList = report.details) :
    batch.Repeats world report work := by
  have hagain : (world.run (scan batch.ruleSet batch.exclusion batch.root work)).1.details =
      report.details :=
    (run_scan h batch fun file _ => .refl world _).trans hdetails
  exact {
    files := hfiles
    details := hagain
    mapped := by rw [IssueReport.totalMapped, hagain, IssueReport.totalMapped]
    unmapped := by rw [IssueReport.totalUnmapped, hagain, IssueReport.totalUnmapped]
    run := fun dryRun size hsize hs => by
      have htotals := totals_of_run h dryRun hnames hsize hs
      rwa [hdetails] at htotals }

end Batch

/-- **The report of a scan is a list of work**: it is read back as the files in which the scan
has found something, and whoever scans these files or runs over them finds just that. -/
theorem report_lists_work {batch : Batch} {store : ReportStore} {top : Place} {text : String}
    {names : Names} {report : IssueReport} {listed scanned filed : FallibleHost}
    (hsteady : world.Steady) (htree : world.disk.IsTree) (hcatalog : catalog.root = batch.root)
    (hroot : world.disk.find true batch.root = .ok (.at top .directory))
    (hlist : world.run (catalog.list (.glob text)).attempt = (.ok names, listed))
    (hnames : names.size ≤ Window.limit)
    (htrimmed : ∀ file ∈ names.toList, Text.trimmed file = file)
    (hscan : listed.run (scan batch.ruleSet batch.exclusion batch.root names) = (report, scanned))
    (hexact : report.toJson.Exact)
    (hfile : scanned.run (store.file report.fileName report.toJson).attempt = (.ok path, filed))
    (habs : path.isAbsolute = true) (hpresent : world.refusal 0 (.present path) = none)
    (hgranted : world.refusal 0 (.read path) = none) :
    ∃ work after, filed.run (catalog.list (.report path)).attempt = (.ok work, after) ∧
      batch.Repeats after report work := by
  -- nothing is refused later that is not refused now, and nothing is lost
  have hlistedRefusal : listed.refusal = world.refusal := refusal_of_run hlist
  have hlistedDisk : listed.disk = world.disk := (catalog.list_obeys _).disk_of_run hlist
  have hscannedDisk : scanned.disk = listed.disk := (scan_obeys _ _ _ _).disk_of_run hscan
  have hrefusal : scanned.refusal = world.refusal := (refusal_of_run hscan).trans hlistedRefusal
  have hgains : scanned.disk.Gains filed.disk := by
    rw [show filed = _ from (congrArg Prod.snd hfile).symm]
    exact (store.file_obeys _ _).gains scanned
  rw [hscannedDisk, hlistedDisk] at hgains
  -- what the scan has found
  have hdetails : report.details = batch.details world names.toList := by
    rw [show report = _ from (congrArg Prod.fst hscan).symm]
    exact run_scan hsteady batch fun file _ =>
      ⟨hlistedRefusal, by rw [hlistedDisk], by rw [hlistedDisk]⟩
  have hsub : report.files.Sublist names.toList := by
    rw [IssueReport.files, hdetails]
    exact batch.sublist_details world names.toList
  -- what is read back
  obtain ⟨work, hwork, hfiles⟩ := IssueReport.run_list_filed (hsteady.of_eq hrefusal) hexact
    (names.ascending.sublist hsub)
    (fun file hf => Catalog.entry_of_listGlob htree (hcatalog ▸ hroot) hlist (hsub.subset hf)
      (htrimmed file (hsub.subset hf)))
    hfile habs (hrefusal ▸ hpresent) (hrefusal ▸ hgranted)
  refine ⟨work, _, Prod.ext hwork rfl, ?_⟩
  have hafter : (filed.run (catalog.list (.report path)).attempt).2.refusal = world.refusal :=
    (filed.refusal_run _).trans ((refusal_of_run hfile).trans hrefusal)
  have hlater : world.disk.Gains (filed.run (catalog.list (.report path)).attempt).2.disk := by
    rw [(catalog.list_obeys (.report path)).disk_run filed]
    exact hgains
  refine Batch.repeats_of_details (hsteady.of_eq hafter) ?_ hfiles ?_
  · refine le_trans ?_ hnames
    rw [Names.size, hfiles]
    exact hsub.length_le
  · rw [hfiles, IssueReport.files, hdetails]
    exact Batch.details_later hsteady hafter hlater batch names.toList

namespace Sample

/-- A project with a file whose name is written with escapes. -/
def quoted : FallibleHost where
  host := {
    disk := {
      entries := [
        (["p"], .directory),
        (["p", "a\"\\.css"], .file "44".toUTF8),
        (["p", "b.css"], .file "5".toUTF8),
        (["p", "d"], .directory),
        (["p", "d", "e.css"], .file "4".toUTF8)]
      here := ["p"] } }

/-- What a scan of that project reports. -/
def quotedReport : IssueReport where
  ruleSet := "radius"
  root := "/p"
  scannedCount := 3
  details := ["a\"\\.css", "d/e.css"].map fun file => ⟨file, [⟨"four", 1, 1, 0, 0, []⟩]⟩
  skipped := []
  errors := []
  unmappedLiterals := []
  timestamp := "1970-01-01T00:00:00Z"

theorem exact_quotedReport : quotedReport.toJson.Exact := by
  have hzero : 0 < Count.bound := by decide
  have hone : 1 < Count.bound := by decide
  exact IssueRecord.exact_toJson {
    scannedCount := by decide
    details := List.forall_mem_map.2 <| List.forall_mem_map.2 fun file _ =>
      ⟨hone, hzero, hzero, List.forall_mem_singleton.2
        ⟨hone, hone, hzero, hzero, by decide, by decide⟩⟩
    totalMapped := by decide
    totalUnmapped := hzero
    literals := ⟨by decide, by decide⟩ }

/-- The two files with literals are read back, and worked on as they were reported. -/
theorem quoted_work_listed :
    let catalog : Catalog := { root := ⟨"/p"⟩ }
    let listed := quoted.run (catalog.list (.glob defaultGlob)).attempt
    ∃ names, listed.1 = .ok names ∧
      let scanned := listed.2.run (scan batch.ruleSet batch.exclusion batch.root names)
      let filed := scanned.2.run
        ((ReportStore.mk ⟨"/p/out"⟩).file scanned.1.fileName scanned.1.toJson).attempt
      ∃ path, filed.1 = .ok path ∧ ∃ work after,
        filed.2.run (catalog.list (.report path)).attempt = (.ok work, after) ∧
          work.toList = ["a\"\\.css", "d/e.css"] ∧ batch.Repeats after scanned.1 work := by
  intro catalog listed
  have hlisted : listed.1.toOption.map (·.toList) = some ["a\"\\.css", "b.css", "d/e.css"] := by
    decide +kernel
  obtain ⟨names, hnames, hlist⟩ := Option.map_eq_some_iff.1 hlisted
  obtain rfl : names = ⟨["a\"\\.css", "b.css", "d/e.css"], by decide⟩ :=
    Names.ext_mem fun name => by rw [hlist]
  refine ⟨_, eq_ok_of_toOption hnames, ?_⟩
  intro scanned filed
  have hscanned : scanned.1 = quotedReport := by decide +kernel
  have hfiled : filed.1.toOption = some ⟨"/p/out/radius-issue-report.json"⟩ := by decide +kernel
  have htree : quoted.disk.IsTree :=
    Disk.isTree_of_entries (by decide) (by decide) (by decide +kernel)
  have hroot : quoted.disk.find true ⟨"/p"⟩ = .ok (.at ["p"] .directory) := rfl
  have hexact : scanned.1.toJson.Exact := by
    rw [hscanned]
    exact exact_quotedReport
  obtain ⟨work, after, hwork, hrepeats⟩ :=
    @report_lists_work quoted catalog ⟨"/p/out/radius-issue-report.json"⟩ batch ⟨⟨"/p/out"⟩⟩ ["p"]
      defaultGlob _ scanned.1 listed.2 scanned.2 filed.2 (fun _ _ => rfl) htree rfl hroot
      (Prod.ext (eq_ok_of_toOption hnames) rfl) (by decide) (by decide +kernel) rfl hexact
      (Prod.ext (eq_ok_of_toOption hfiled) rfl) (by decide) rfl rfl
  refine ⟨_, eq_ok_of_toOption hfiled, work, after, hwork, ?_, hrepeats⟩
  rw [hrepeats.files, hscanned]
  rfl

end Sample

end StyleTokens

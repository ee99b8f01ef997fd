/-
Records that are read as they were written.

A record is made of texts, names, flags, counts and maps.  Counts have 64 bits, exit codes
32, and maps are in order of their names; nothing else is asked of a record to be told from
its text.

* `BatchReport.Sized`, `IssueRecord.Sized`, `Configuration.Sized` — what is asked of a record;
* `ofJson_toJson` — for each of them, the document of a record describes it;
* `BatchReport.run_load` — a report on the disk is loaded;
* `records_read_back` — all kinds of records, from their texts;
* `Sample.odd_records_read_back` — records at the limits of what is asked.
-/
import StyleTokens.Batch.Report
import StyleTokens.Configuration
import StyleTokens.Proofs.Vault.Reading
import StyleTokens.Scan.Record

namespace StyleTokens

open Json

/-! ### Reports of batches -/

theorem Fix.ofJson_toJson {fix : Fix} (h : fix.count < Count.bound) :
    ofJson fix.toJson = .ok fix := by
  rw [ofJson, toJson, asRecord_object]
  · simp [asNat_ofNat h]
  · rfl
  · decide

namespace FileRecord

/-- A record of a file whose counts 64 bits hold. -/
structure Sized (record : FileRecord) : Prop where
  fixes : ∀ fix ∈ record.fixes, fix.count < Count.bound
  sizeBefore : record.sizeBefore < Count.bound
  sizeAfter : record.sizeAfter < Count.bound
  unmapped : record.unmapped < Count.bound

variable {record : FileRecord}

theorem exact_toJson (h : record.Sized) : record.toJson.Exact := by
  refine ⟨trivial, trivial, trivial, trivial, exactItems_map fun fix hf => ?_,
    exact_nullable fun _ _ => trivial, fits_ofNat h.sizeBefore, fits_ofNat h.sizeAfter,
    fits_ofNat h.unmapped, trivial⟩
  exact ⟨trivial, fits_ofNat (h.fixes fix hf), trivial⟩

theorem ofJson_toJson (h : record.Sized) : ofJson record.toJson = .ok record := by
  have hfixes := asList_map fun fix hf => Fix.ofJson_toJson (h.fixes fix hf)
  have herror : asOption asString (.nullable .string record.error) = .ok record.error :=
    asOption_nullable (by simp) fun _ _ => rfl
  rw [ofJson, toJson, asRecord_object]
  · simp [asName_label record.status.ofLabel?_label, hfixes, herror, asNat_ofNat h.sizeBefore,
      asNat_ofNat h.sizeAfter, asNat_ofNat h.unmapped]
  · rfl
  · decide

end FileRecord

namespace GateSummary

/-- A summary whose time 64 bits hold and whose exit code 32. -/
structure Sized (summary : GateSummary) : Prop where
  exitCode : ∀ code ∈ summary.exitCode, -0x80000000 ≤ code ∧ code < 0x80000000
  milliseconds : summary.milliseconds < Count.bound

variable {summary : GateSummary}

theorem exact_toJson (h : summary.Sized) : summary.toJson.Exact := by
  refine ⟨trivial, exact_nullable fun _ _ => trivial, exact_nullable fun code hc => ?_,
    fits_ofNat h.milliseconds, trivial, trivial⟩
  have := h.exitCode code hc
  show code < 0x10000000000000000 ∧ -(2 * code) ≤ 0x10000000000000000
  omega

theorem ofJson_toJson (h : summary.Sized) : ofJson summary.toJson = .ok summary := by
  have hcommand : asOption asString (.nullable .string summary.command) = .ok summary.command :=
    asOption_nullable (by simp) fun _ _ => rfl
  have hcode : asOption (asInteger (-0x80000000) 0x80000000)
      (.nullable .integer summary.exitCode) = .ok summary.exitCode :=
    asOption_nullable (by simp) fun code hc => asInteger_integer (h.exitCode code hc)
  rw [ofJson, toJson, asRecord_object]
  · simp [asName_label summary.status.ofLabel?_label, hcommand, hcode,
      asNat_ofNat h.milliseconds]
  · rfl
  · decide

end GateSummary

namespace BatchReport

/-- The counts of a report. -/
def counts (report : BatchReport) : List Nat :=
  [report.startIndex, report.batchSize, report.endIndex, report.totalFiles,
    report.processedCount, report.totalFixes, report.successCount, report.fixedCount,
    report.unchangedCount, report.errorCount, report.skippedCount, report.remainingCount]

/-- A report whose counts 64 bits hold, and whose exit code 32. -/
structure Sized (report : BatchReport) : Prop where
  counts : ∀ n ∈ report.counts, n < Count.bound
  results : ∀ record ∈ report.results, record.Sized
  gate : report.gate.Sized

variable {report : BatchReport}

theorem exact_toJson (h : report.Sized) : report.toJson.Exact := by
  have hcounts := h.counts
  simp only [counts, List.forall_mem_cons] at hcounts
  obtain ⟨hstart, hsize, hend, htotal, hprocessed, hfixes, hsuccess, hfixed, hunchanged, herror,
    hskipped, hremaining, -⟩ := hcounts
  exact ⟨trivial, trivial, fits_ofNat hstart, fits_ofNat hsize, fits_ofNat hend,
    fits_ofNat htotal, fits_ofNat hprocessed,
    exactItems_map fun record hr => FileRecord.exact_toJson (h.results record hr),
    fits_ofNat hfixes, fits_ofNat hsuccess, fits_ofNat hfixed, fits_ofNat hunchanged,
    fits_ofNat herror, fits_ofNat hskipped, fits_ofNat hremaining, trivial,
    GateSummary.exact_toJson h.gate, trivial, trivial, exact_nullable fun _ _ => trivial, trivial,
    trivial⟩

theorem ofJson_toJson (h : report.Sized) : ofJson report.toJson = .ok report := by
  have hcounts := h.counts
  simp only [counts, List.forall_mem_cons] at hcounts
  have hresults := asList_map fun record hr => FileRecord.ofJson_toJson (h.results record hr)
  have hmanifest : asOption asString (.nullable .string report.backupManifest) =
      .ok report.backupManifest := asOption_nullable (by simp) fun _ _ => rfl
  rw [ofJson, toJson, asRecord_object]
  · simp [asNat_ofNat, hcounts, hresults, GateSummary.ofJson_toJson h.gate, hmanifest]
  · rfl
  · decide

/-- The text of a report describes it. -/
theorem parse_pretty (h : report.Sized) : parse (report.toJson.pretty ++ "\n") = .ok report := by
  rw [parse, read_pretty_line (exact_toJson h), ok_bind, ofJson_toJson h]
  rfl

/-- **A report on the disk is loaded.** -/
theorem run_load {world : FallibleHost} {path : Path} (hgrants : world.Grants) (h : report.Sized)
    (hread : world.disk.read path = .ok (report.toJson.pretty ++ "\n").toUTF8) :
    (world.run (load path).attempt).1 = .ok report := by
  obtain ⟨after, htext, -, -⟩ := hgrants.run_readText hread (fromUTF8?_toUTF8 _)
  rw [load, FallibleHost.run_action_bind, htext]
  dsimp only
  rw [parse_pretty h]
  rfl

end BatchReport

/-! ### Reports of scans -/

/-- Counts by name, in order, that 64 bits hold. -/
structure SizedCounts (counts : List (String × Nat)) : Prop where
  ordered : counts.Pairwise fun a b => a.1 < b.1
  lt_bound : ∀ entry ∈ counts, entry.2 < Count.bound

namespace SizedCounts

variable {counts : List (String × Nat)}

theorem exact_ofCounts (h : SizedCounts counts) : (ofCounts counts).Exact :=
  exactMembers_map _ fun entry he => fits_ofNat (h.lt_bound entry he)

theorem asMap_ofCounts (h : SizedCounts counts) : asMap asNat (ofCounts counts) = .ok counts :=
  asMap_map _ h.ordered fun entry he => asNat_ofNat (h.lt_bound entry he)

end SizedCounts

namespace Tally

/-- A tally whose counts 64 bits hold. -/
structure Sized (tally : Tally) : Prop where
  matched : tally.matched < Count.bound
  replaced : tally.replaced < Count.bound
  unmapped : tally.unmapped < Count.bound
  inComment : tally.inComment < Count.bound
  literals : SizedCounts tally.unmappedLiterals

variable {tally : Tally}

theorem exact_toJson (h : tally.Sized) : tally.toJson.Exact :=
  ⟨trivial, fits_ofNat h.matched, fits_ofNat h.replaced, fits_ofNat h.unmapped,
    fits_ofNat h.inComment, h.literals.exact_ofCounts, trivial⟩

theorem ofJson_toJson (h : tally.Sized) : ofJson tally.toJson = .ok tally := by
  rw [ofJson, toJson, asRecord_object]
  · simp [asNat_ofNat, h.matched, h.replaced, h.unmapped, h.inComment, h.literals.asMap_ofCounts]
  · rfl
  · decide

end Tally

namespace IssueEntry

/-- An entry whose counts 64 bits hold. -/
structure Sized (entry : IssueEntry) : Prop where
  mapped : entry.mapped < Count.bound
  unmapped : entry.unmapped < Count.bound
  inComment : entry.inComment < Count.bound
  rules : ∀ tally ∈ entry.rules, tally.Sized

variable {entry : IssueEntry}

theorem exact_toJson (h : entry.Sized) : entry.toJson.Exact :=
  ⟨trivial, fits_ofNat h.mapped, fits_ofNat h.unmapped, fits_ofNat h.inComment,
    exactItems_map fun tally ht => Tally.exact_toJson (h.rules tally ht), trivial⟩

theorem ofJson_toJson (h : entry.Sized) : ofJson entry.toJson = .ok entry := by
  have hrules := asList_map fun tally ht => Tally.ofJson_toJson (h.rules tally ht)
  rw [ofJson, toJson, asRecord_object]
  · simp [asNat_ofNat, h.mapped, h.unmapped, h.inComment, hrules]
  · rfl
  · decide

end IssueEntry

namespace IssueRecord

/-- A record whose counts 64 bits hold. -/
structure Sized (record : IssueRecord) : Prop where
  scannedCount : record.scannedCount < Count.bound
  details : ∀ entry ∈ record.details, entry.Sized
  totalMapped : record.totalMapped < Count.bound
  totalUnmapped : record.totalUnmapped < Count.bound
  literals : SizedCounts record.unmappedLiterals

variable {record : IssueRecord}

theorem exact_toJson (h : record.Sized) : record.toJson.Exact :=
  ⟨trivial, trivial, trivial, fits_ofNat h.scannedCount, exact_strings _,
    exactItems_map fun entry he => IssueEntry.exact_toJson (h.details entry he), exact_strings _,
    exactItems_map fun _ _ => ⟨trivial, trivial, trivial⟩, fits_ofNat h.totalMapped,
    fits_ofNat h.totalUnmapped, h.literals.exact_ofCounts, trivial, trivial⟩

theorem ofJson_toJson (h : record.Sized) : ofJson record.toJson = .ok record := by
  have hdetails := asList_map fun entry he => IssueEntry.ofJson_toJson (h.details entry he)
  have herrors : asList ScanError.ofJson (.array (record.errors.map ScanError.toJson)) =
      .ok record.errors := asList_map fun _ _ => rfl
  rw [ofJson, toJson, asRecord_object]
  · simp [asNat_ofNat, h.scannedCount, hdetails, herrors, h.totalMapped, h.totalUnmapped,
      h.literals.asMap_ofCounts]
  · rfl
  · decide

/-- The text of a record describes it. -/
theorem parse_pretty (h : record.Sized) : parse (record.toJson.pretty ++ "\n") = .ok record := by
  rw [parse, read_pretty_line (exact_toJson h), ok_bind, ofJson_toJson h]
  rfl

end IssueRecord

/-! ### Configurations -/

theorem TokenEntry.ofJson_toJson (entry : TokenEntry) : ofJson entry.toJson = .ok entry := by
  rw [ofJson, toJson, asRecord_object]
  · simp [Category.ofJson, asName_label entry.category.ofLabel?_label]
  · rfl
  · decide

theorem RuleDraft.ofJson_toJson (draft : RuleDraft) : ofJson draft.toJson = .ok draft := by
  rw [ofJson, toJson, asRecord_object]
  · simp [Category.ofJson, asName_label draft.category.ofLabel?_label]
  · rfl
  · decide

theorem GateSettings.ofJson_toJson {settings : GateSettings}
    (h : settings.timeoutSeconds < Count.bound) : ofJson settings.toJson = .ok settings := by
  have hcommand : asOption asString (.nullable .string settings.command) =
      .ok settings.command := asOption_nullable (by simp) fun _ _ => rfl
  rw [ofJson, toJson, asRecord_object]
  · simp [hcommand, asNat_ofNat h]
  · rfl
  · decide

namespace Configuration

/-- A configuration whose time 64 bits hold, with its rule sets in order of their names. -/
structure Sized (configuration : Configuration) : Prop where
  ordered : configuration.ruleSets.Pairwise fun a b => a.1 < b.1
  timeout : configuration.gate.timeoutSeconds < Count.bound

variable {configuration : Configuration}

theorem exact_toJson (h : configuration.Sized) : configuration.toJson.Exact := by
  refine ⟨trivial, exactItems_map fun _ _ => ⟨trivial, trivial, trivial, trivial⟩, ?_,
    exact_strings _, trivial, ⟨exact_nullable fun _ _ => trivial, fits_ofNat h.timeout, trivial⟩,
    trivial⟩
  refine exactMembers_map (fun drafts : List RuleDraft => .array (drafts.map RuleDraft.toJson))
    fun _ _ => exactItems_map fun _ _ => ?_
  exact ⟨trivial, trivial, trivial, trivial, trivial, trivial⟩

theorem ofJson_toJson (h : configuration.Sized) :
    ofJson configuration.toJson = .ok configuration := by
  have hentries : asList TokenEntry.ofJson (.array (configuration.entries.map TokenEntry.toJson)) =
      .ok configuration.entries := asList_map fun entry _ => entry.ofJson_toJson
  have hsets := asMap_map (fun drafts : List RuleDraft => .array (drafts.map RuleDraft.toJson))
    h.ordered fun _ _ => asList_map fun draft _ => RuleDraft.ofJson_toJson draft
  rw [ofJson, toJson, asRecord_object]
  · simp [hentries, hsets, GateSettings.ofJson_toJson h.timeout]
  · rfl
  · decide

/-- A text that is read as the document of a configuration describes it. -/
theorem parse_of_read {text : String} (h : configuration.Sized)
    (hread : read text = .ok configuration.toJson) : parse text = .ok configuration := by
  rw [parse, hread, ok_bind, ofJson_toJson h]
  rfl

end Configuration

/-- **Records are read as they were written.**  The text of a report of a batch, of a
manifest, of a report of a scan and of a configuration describes just that record, and
where the first two lie in a file, the file is loaded as that record. -/
theorem records_read_back :
    (∀ report : BatchReport, report.Sized →
      BatchReport.parse (report.toJson.pretty ++ "\n") = .ok report ∧
      ∀ (world : FallibleHost) (path : Path), world.Grants →
        world.disk.read path = .ok (report.toJson.pretty ++ "\n").toUTF8 →
        (world.run (BatchReport.load path).attempt).1 = .ok report) ∧
    (∀ manifest : Manifest, manifest.Sized →
      Manifest.parse manifest.toJson.pretty = .ok manifest ∧
      ∀ (world : FallibleHost) (path : Path), world.Grants →
        world.disk.read path = .ok manifest.toJson.pretty.toUTF8 →
        (world.run (Manifest.load path).attempt).1 = .ok manifest) ∧
    (∀ record : IssueRecord, record.Sized →
      IssueRecord.parse (record.toJson.pretty ++ "\n") = .ok record) ∧
    (∀ configuration : Configuration, configuration.Sized →
      Configuration.parse configuration.toJson.pretty = .ok configuration ∧
      Configuration.parse configuration.toJson.compact = .ok configuration) := by
  refine ⟨fun report h => ?_, fun manifest h => ?_, fun record h => ?_, fun configuration h => ?_⟩
  · exact ⟨BatchReport.parse_pretty h, fun world path hgrants hread =>
      BatchReport.run_load hgrants h hread⟩
  · refine ⟨Manifest.parse_pretty h, fun world path hgrants hread => ?_⟩
    obtain ⟨after, hrun, -, -⟩ := Manifest.run_load hgrants h hread
    rw [hrun]
  · exact IssueRecord.parse_pretty h
  · have hexact := Configuration.exact_toJson h
    exact ⟨Configuration.parse_of_read h (read_pretty hexact),
      Configuration.parse_of_read h (read_compact hexact)⟩

namespace Sample

/-- Text of all kinds that a JSON string may not hold as it is. -/
def oddText : String := "\"\\/\n\r\t\u0000\u001b\u007f 日\u2028𝄞"

/-- A report with the greatest counts, the least exit code and values left out. -/
def oddReport : BatchReport where
  schemaVersion := ""
  ruleSet := oddText
  startIndex := 0
  batchSize := Count.bound - 1
  endIndex := Count.bound - 1
  totalFiles := 0
  processedCount := 1
  results := [
    { path := oddText, status := .errored, error := some oddText, sizeBefore := Count.bound - 1 },
    { path := "a", status := .fixed, skipped := true, fixes := [⟨oddText, Count.bound - 1⟩] }]
  totalFixes := 0
  successCount := 7
  fixedCount := 0
  unchangedCount := 0
  errorCount := 0
  skippedCount := 0
  remainingCount := 0
  compileSuccess := false
  gate := ⟨.failed, some "", some (-0x80000000), Count.bound - 1, oddText⟩
  dryRun := true
  backupBypassed := true
  backupManifest := none
  timestamp := oddText

/-- A manifest with and without first copies. -/
def oddManifest : Manifest where
  schemaVersion := oddText
  createdAt := ""
  sourceRoot := oddText
  entries := [⟨oddText, "", Count.bound - 1, oddText, none⟩, ⟨"", oddText, 0, "", some oddText⟩]
  failures := [⟨oddText, oddText⟩]

/-- A record whose sums are not those of its details. -/
def oddRecord : IssueRecord where
  schemaVersion := oddText
  ruleSet := ""
  root := oddText
  scannedCount := Count.bound - 1
  files := [oddText, "", oddText]
  details := [⟨oddText, 1, Count.bound - 1, 0,
    [⟨oddText, 0, 3, Count.bound - 1, 2, [("", 1), (oddText, Count.bound - 1), ("𝄞", 0)]⟩]⟩]
  skipped := [""]
  errors := [⟨oddText, oddText⟩]
  totalMapped := 0
  totalUnmapped := Count.bound - 1
  unmappedLiterals := [("", 0), (oddText, 1)]
  timestamp := oddText

/-- A configuration that would not pass the checks. -/
def oddConfiguration : Configuration where
  schemaVersion := oddText
  entries := [⟨oddText, .color, ""⟩]
  ruleSets := [("", []), (oddText, [⟨oddText, .color, "[", oddText, true⟩])]
  exclude := [oddText, ""]
  includeGlob := oddText
  gate := ⟨some oddText, 0⟩

/-- A world with a report and a manifest in files. -/
def filed : FallibleHost where
  host := {
    disk := {
      entries := [
        (["p"], .directory),
        (["p", "r"], .file (oddReport.toJson.pretty ++ "\n").toUTF8),
        (["p", "m"], .file oddManifest.toJson.pretty.toUTF8)]
      here := ["p"] } }

theorem odd_records_read_back :
    oddReport.Sized ∧ oddManifest.Sized ∧ oddRecord.Sized ∧ oddConfiguration.Sized ∧
    (filed.run (BatchReport.load ⟨"r"⟩).attempt).1 = .ok oddReport ∧
    (filed.run (Manifest.load ⟨"m"⟩).attempt).1 = .ok oddManifest ∧
    IssueRecord.parse (oddRecord.toJson.pretty ++ "\n") = .ok oddRecord ∧
    Configuration.parse oddConfiguration.toJson.compact = .ok oddConfiguration := by
  have hgrants : filed.Grants := fun _ _ => rfl
  have hreport : oddReport.Sized := {
    counts := by decide
    results := List.forall_mem_cons.2 ⟨⟨by decide, by decide, by decide, by decide⟩,
      List.forall_mem_singleton.2 ⟨by decide, by decide, by decide, by decide⟩⟩
    gate := ⟨by decide, by decide⟩ }
  have hmanifest : oddManifest.Sized := by
    unfold Manifest.Sized
    decide
  have hrecord : oddRecord.Sized := {
    scannedCount := by decide
    details := List.forall_mem_singleton.2 ⟨by decide, by decide, by decide,
      List.forall_mem_singleton.2
        ⟨by decide, by decide, by decide, by decide, by decide, by decide⟩⟩
    totalMapped := by decide
    totalUnmapped := by decide
    literals := ⟨by decide, by decide⟩ }
  have hconfiguration : oddConfiguration.Sized := ⟨by decide, by decide⟩
  obtain ⟨hreports, hmanifests, hrecords, hconfigurations⟩ := records_read_back
  exact ⟨hreport, hmanifest, hrecord, hconfiguration,
    (hreports oddReport hreport).2 filed ⟨"r"⟩ hgrants rfl,
    (hmanifests oddManifest hmanifest).2 filed ⟨"m"⟩ hgrants rfl, hrecords oddRecord hrecord,
    (hconfigurations oddConfiguration hconfiguration).2⟩

end Sample

end StyleTokens

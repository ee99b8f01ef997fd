/-
Scans: what a batch would find.

* `scan` — the report on all files of a listing, none of which is changed;
* `IssueReport.isClean` — whether no literal with a token is left.

The report lists the files with literals that a rule found, so it can serve as
the source of a batch.
-/
import StyleTokens.Listing
import StyleTokens.Revision
import StyleTokens.Script

namespace StyleTokens

/-- What a scan found in one file. -/
structure FileIssues where
  path : String
  /-- The tallies of the rules that matched. -/
  rules : List Tally
  deriving DecidableEq, Repr, Inhabited

namespace FileIssues

/-- Literals that have a token. -/
def mapped (issues : FileIssues) : Nat :=
  Count.total (issues.rules.map (·.replaced))

/-- Literals without a token. -/
def unmapped (issues : FileIssues) : Nat :=
  Count.total (issues.rules.map (·.unmapped))

/-- Matches that touch a comment. -/
def inComment (issues : FileIssues) : Nat :=
  Count.total (issues.rules.map (·.inComment))

/-- Whether there is a literal to look at. -/
def any (issues : FileIssues) : Bool :=
  0 < issues.mapped + issues.unmapped

/-- What a revision tells about a file. -/
def ofRevision (path : String) (revision : Revision) : FileIssues :=
  ⟨path, revision.tallies.filter (0 < ·.matched)⟩

end FileIssues

/-- A file that could not be read, and why. -/
structure ScanError where
  path : String
  error : String
  deriving DecidableEq, Repr, Inhabited

/-- What became of a file in a scan. -/
inductive Inspection
  | skipped (path : String)
  | errored (error : ScanError)
  | scanned (issues : FileIssues)
  deriving DecidableEq, Repr, Inhabited

namespace Inspection

/-- The path of a file that was left out. -/
def skipped? : Inspection → Option String
  | skipped path => some path
  | _ => none

/-- The error of a file that could not be read. -/
def errored? : Inspection → Option ScanError
  | errored error => some error
  | _ => none

/-- What was found in a file that was read. -/
def scanned? : Inspection → Option FileIssues
  | scanned issues => some issues
  | _ => none

end Inspection

/-- The report of a scan. -/
structure IssueReport where
  ruleSet : String
  root : String
  scannedCount : Nat
  /-- What was found, file by file; files without literals are left out. -/
  details : List FileIssues
  skipped : List String
  errors : List ScanError
  /-- How often each literal without a token was met, in order of the literals. -/
  unmappedLiterals : List (String × Nat)
  timestamp : String
  deriving DecidableEq, Repr, Inhabited

/-- Adds up counts by name, in order of the names. -/
def addCounts (counts : List (String × Nat)) (more : List (String × Nat)) : List (String × Nat) :=
  more.foldl (fun counts (name, count) => addCount name count counts) counts

namespace IssueReport

/-- The version of reports. -/
def schema : String := "token-migrator-issue-report-v1"

/-- The report on files that were inspected. -/
def ofInspections (ruleSet : String) (root : Path) (files : List Inspection)
    (timestamp : String) : IssueReport :=
  let scanned := files.filterMap Inspection.scanned?
  { ruleSet
    root := root.plain
    scannedCount := scanned.length
    details := scanned.filter FileIssues.any
    skipped := files.filterMap Inspection.skipped?
    errors := files.filterMap Inspection.errored?
    unmappedLiterals :=
      ((scanned.map (·.rules)).flatten.map (·.unmappedLiterals)).foldl addCounts []
    timestamp }

/-- The files with literals to look at. -/
def files (report : IssueReport) : List String :=
  report.details.map (·.path)

/-- Literals that have a token. -/
def totalMapped (report : IssueReport) : Nat :=
  Count.total (report.details.map (·.mapped))

/-- Literals without a token. -/
def totalUnmapped (report : IssueReport) : Nat :=
  Count.total (report.details.map (·.unmapped))

/-- Whether no literal with a token is left. -/
def isClean (report : IssueReport) : Bool :=
  report.totalMapped = 0

/-- The name of the report's file. -/
def fileName (report : IssueReport) : String :=
  report.ruleSet ++ "-issue-report.json"

end IssueReport

/-- Reads one file and looks for literals. -/
def inspect (ruleSet : RuleSet) (exclusion : Exclusion) (root : Path) (file : String) :
    Script Inspection := do
  if exclusion.excludes file then return .skipped file
  match ← Script.readText (root.under ⟨file⟩) with
  | .error cause => return .errored ⟨file, cause.message⟩
  | .ok text => return .scanned (.ofRevision file (ruleSet.revise text.toList))

/-- Reads files in order. -/
def inspectAll (ruleSet : RuleSet) (exclusion : Exclusion) (root : Path) :
    List String → Script (List Inspection)
  | [] => return []
  | file :: files => do
    let found ← inspect ruleSet exclusion root file
    return found :: (← inspectAll ruleSet exclusion root files)

/-- Looks for literals in all files of a listing. -/
def scan (ruleSet : RuleSet) (exclusion : Exclusion) (root : Path) (files : Names) :
    Script IssueReport := do
  let inspections ← inspectAll ruleSet exclusion root files.toList
  return .ofInspections ruleSet.name root inspections (← Script.request .now)

end StyleTokens

/-
What a batch did to one file.

* `FileResult` — the outcome for a file, with what belongs to it;
* `FileRecord` — the same as it is written in a report, where every outcome has
  the same fields;
* `FileResult.record` — the record of a result.
-/
import StyleTokens.Json.Decode
import StyleTokens.Revision

namespace StyleTokens

/-- The states of a file in a report. -/
inductive FileStatus
  | skipped
  | fixed
  | unchanged
  | errored
  deriving DecidableEq, Repr, Inhabited

namespace FileStatus

/-- All states. -/
def all : List FileStatus :=
  [skipped, fixed, unchanged, errored]

/-- The name of a state. -/
def label : FileStatus → String
  | skipped => "skipped"
  | fixed => "fixed"
  | unchanged => "unchanged"
  | errored => "errored"

/-- The state of exactly this name. -/
def ofLabel? (name : String) : Option FileStatus :=
  all.find? (·.label == name)

theorem ofLabel?_label (status : FileStatus) : ofLabel? status.label = some status := by
  cases status <;> decide

end FileStatus

/-- What became of a file. -/
inductive FileOutcome
  /-- Left out by the exclusion policy. -/
  | skipped
  | errored (size : Nat) (reason : String)
  | unchanged (size unmapped : Nat)
  | fixed (fixes : List Fix) (size sizeAfter unmapped : Nat)
  deriving DecidableEq, Repr, Inhabited

/-- The state that a report shows. -/
def FileOutcome.status : FileOutcome → FileStatus
  | skipped => .skipped
  | errored _ _ => .errored
  | unchanged _ _ => .unchanged
  | fixed _ _ _ _ => .fixed

/-- What became of the file at a path. -/
structure FileResult where
  path : String
  outcome : FileOutcome
  deriving DecidableEq, Repr, Inhabited

/-- A file in a report. -/
structure FileRecord where
  path : String
  status : FileStatus
  fixed : Bool := status == .fixed
  skipped : Bool := status == .skipped
  fixes : List Fix := []
  error : Option String := none
  sizeBefore : Nat := 0
  sizeAfter : Nat := 0
  unmapped : Nat := 0
  deriving DecidableEq, Repr, Inhabited

/-- The record of a result. -/
def FileResult.record (result : FileResult) : FileRecord :=
  match result.outcome with
  | .skipped => { path := result.path, status := .skipped }
  | .errored size reason =>
    { path := result.path, status := .errored, error := some reason, sizeBefore := size
      sizeAfter := size }
  | .unchanged size unmapped =>
    { path := result.path, status := .unchanged, sizeBefore := size, sizeAfter := size
      unmapped }
  | .fixed fixes size sizeAfter unmapped =>
    { path := result.path, status := .fixed, fixes, sizeBefore := size, sizeAfter, unmapped }

/-- A fix as it is written. -/
def Fix.toJson (fix : Fix) : Json :=
  .object [("rule_id", .string fix.rule), ("match_count", .ofNat fix.count)]

open Json in
/-- A written fix. -/
def Fix.ofJson : Decoder Fix := fun document => do
  let r ← asRecord ["rule_id", "match_count"] document
  return ⟨← r.required "rule_id" asString, ← r.required "match_count" asNat⟩

namespace FileRecord

/-- How many literals were replaced. -/
def fixCount (record : FileRecord) : Nat :=
  Count.total (record.fixes.map (·.count))

/-- The record as it is written. -/
def toJson (record : FileRecord) : Json :=
  .object [
    ("path", .string record.path),
    ("status", .string record.status.label),
    ("fixed", .bool record.fixed),
    ("skipped", .bool record.skipped),
    ("fixes", .array (record.fixes.map Fix.toJson)),
    ("error", .nullable .string record.error),
    ("original_size", .ofNat record.sizeBefore),
    ("fixed_size", .ofNat record.sizeAfter),
    ("unmapped", .ofNat record.unmapped)]

open Json in
/-- A written record. -/
def ofJson : Decoder FileRecord := fun document => do
  let names := ["path", "status", "fixed", "skipped", "fixes", "error", "original_size",
    "fixed_size", "unmapped"]
  let r ← asRecord names document
  return {
    path := ← r.required "path" asString
    status := ← r.required "status" (asName FileStatus.ofLabel?)
    fixed := ← r.required "fixed" asBool
    skipped := ← r.required "skipped" asBool
    fixes := ← r.required "fixes" (asList Fix.ofJson)
    error := ← r.nullable "error" asString
    sizeBefore := ← r.required "original_size" asNat
    sizeAfter := ← r.required "fixed_size" asNat
    unmapped := ← r.withDefault "unmapped" 0 asNat }

end FileRecord

end StyleTokens

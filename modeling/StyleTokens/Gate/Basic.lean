/-
Compile gates: what a check after a batch can say.

* `GateOutcome` — how the command ended;
* `GateSummary` — the same as it stands in a report;
* `GateSummary.allowsProgress` — whether the next batch may follow: only a gate
  that failed or took too long stands in the way.
-/
import StyleTokens.Json.Decode

namespace StyleTokens

/-- How a gate command ended. -/
inductive GateOutcome
  | success (output : String)
  /-- A command that a signal ended, or that could not start, has no exit code. -/
  | failure (exitCode : Option Int) (output : String)
  | timeout (seconds : Nat) (output : String)
  deriving DecidableEq, Repr, Inhabited

/-- What the command wrote. -/
def GateOutcome.output : GateOutcome → String
  | success output | failure _ output | timeout _ output => output

/-- Whether the command succeeded. -/
def GateOutcome.succeeded : GateOutcome → Bool
  | success _ => true
  | _ => false

/-- The state of a gate in a report. -/
inductive GateStatus
  | passed
  | failed
  | timedOut
  | skipped
  deriving DecidableEq, Repr, Inhabited

namespace GateStatus

/-- All states. -/
def all : List GateStatus :=
  [passed, failed, timedOut, skipped]

/-- The name of a state. -/
def label : GateStatus → String
  | passed => "passed"
  | failed => "failed"
  | timedOut => "timed_out"
  | skipped => "skipped"

/-- The state of exactly this name. -/
def ofLabel? (name : String) : Option GateStatus :=
  all.find? (·.label == name)

theorem ofLabel?_label (status : GateStatus) : ofLabel? status.label = some status := by
  cases status <;> decide

end GateStatus

/-- A gate in a report. -/
structure GateSummary where
  status : GateStatus
  command : Option String
  exitCode : Option Int
  milliseconds : Nat
  outputTail : String
  deriving DecidableEq, Repr, Inhabited

namespace GateSummary

/-- A gate that was not run, for a reason. -/
def skipped (reason : String) : GateSummary :=
  ⟨.skipped, none, none, 0, reason⟩

/-- A gate that was run. -/
def ofOutcome (command : String) (milliseconds : Nat) : GateOutcome → GateSummary
  | .success output => ⟨.passed, some command, some 0, milliseconds, output⟩
  | .failure exitCode output => ⟨.failed, some command, exitCode, milliseconds, output⟩
  | .timeout _ output => ⟨.timedOut, some command, none, milliseconds, output⟩

/-- Whether the gate leaves the way free. -/
def allowsProgress (summary : GateSummary) : Bool :=
  summary.status == .passed || summary.status == .skipped

/-- The summary as it is written. -/
def toJson (summary : GateSummary) : Json :=
  .object [
    ("status", .string summary.status.label),
    ("command", .nullable .string summary.command),
    ("exit_code", .nullable .integer summary.exitCode),
    ("duration_ms", .ofNat summary.milliseconds),
    ("output_tail", .string summary.outputTail)]

open Json in
/-- A written summary. -/
def ofJson : Decoder GateSummary := fun document => do
  let r ← asRecord ["status", "command", "exit_code", "duration_ms", "output_tail"] document
  return {
    status := ← r.required "status" (asName GateStatus.ofLabel?)
    command := ← r.nullable "command" asString
    exitCode := ← r.nullable "exit_code" (asInteger (-0x80000000) 0x80000000)
    milliseconds := ← r.required "duration_ms" asNat
    outputTail := ← r.required "output_tail" asString }

end GateSummary

end StyleTokens

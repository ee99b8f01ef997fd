/-
Running a compile gate.

The command runs in the project with its output going to two log files, and is
stopped when its time is over.

* `Gate.check` — how the command ended, with the end of what it wrote; a command
  that cannot be started has failed;
* `Gate.summary` — the same as it stands in a report;
* `combinedOutput` — what is kept of the two logs.
-/
import StyleTokens.Gate.Basic
import StyleTokens.Script
import StyleTokens.Text.Bytes
import StyleTokens.Text.Utf8

namespace StyleTokens

/-- A command that checks a project. -/
structure Gate where
  command : String
  directory : Path
  limit : Duration
  logDirectory : Path
  /-- What the names of the logs begin with. -/
  stem : String := "gate"
  deriving DecidableEq, Repr, Inhabited

/-- Bytes of the output that are kept. -/
def outputLimit : Nat := 8192

/-- The end of two logs, one after the other, as far as it is kept.  A line break
is put between them if there is none. -/
def combinedOutput (out err : ByteArray) : String :=
  let out := Utf8.decodeLossy out
  let err := Utf8.decodeLossy err
  let gap := if err = [] || out = [] || out.getLast? = some '\n' then [] else ['\n']
  String.ofList (Text.keepTail outputLimit (out ++ gap ++ err))

namespace Gate

/-- The log of the standard output. -/
def outLog (gate : Gate) : Path :=
  gate.logDirectory.child (gate.stem ++ ".stdout.log")

/-- The log of the error output. -/
def errLog (gate : Gate) : Path :=
  gate.logDirectory.child (gate.stem ++ ".stderr.log")

/-- What is kept of the logs; one that cannot be read counts as empty. -/
def output (gate : Gate) : Script String := do
  let out ← Script.request (.read gate.outLog)
  let err ← Script.request (.read gate.errLog)
  return combinedOutput (out.toOption.getD .empty) (err.toOption.getD .empty)

/-- Runs the command with empty logs. -/
def start (gate : Gate) : Action GateOutcome := do
  Action.makeDirectories gate.logDirectory
  Action.ofIo (Script.request (.write gate.outLog .empty))
  Action.ofIo (Script.request (.write gate.errLog .empty))
  let ended ← Action.ofIo (Script.request (.shell {
    command := gate.command, directory := gate.directory, limit := gate.limit
    outLog := gate.outLog, errLog := gate.errLog }))
  let output ← (gate.output : Script _)
  match ended with
  | .exited (some 0) => return .success output
  | .exited code => return .failure code output
  | .overdue => return .timeout gate.limit.seconds output

/-- How the command ended. -/
def check (gate : Gate) : Script GateOutcome := do
  match ← Action.attempt gate.start with
  | .ok outcome => return outcome
  | .error fault =>
    let reason := "failed to run gate command \u0060" ++ gate.command ++ "\u0060: " ++ fault.message
    return .failure none reason

/-- How the command ended, and the summary for a report. -/
def summary (gate : Gate) : Script (GateOutcome × GateSummary) := do
  let before ← Script.request .uptime
  let outcome ← gate.check
  let after ← Script.request .uptime
  return (outcome, .ofOutcome gate.command (after - before) outcome)

end Gate

end StyleTokens

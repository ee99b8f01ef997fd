/-
Carrying out a command.

* `Command.perform` — what a command does;
* `Command.session` — what a line of arguments does, with the exit code.
-/
import StyleTokens.Command.Arguments
import StyleTokens.Command.ListRules
import StyleTokens.Command.Restore
import StyleTokens.Command.Run
import StyleTokens.Command.Scan

namespace StyleTokens

namespace Command

/-- Carries out a command. -/
def perform : Command → Action Unit
  | run options => options.perform
  | scan options => options.perform
  | restore options => options.perform
  | listRules config => StyleTokens.listRules config

/-- Carries out a line of arguments.  The result is the exit code. -/
def session (arguments : List String) : Script Int := do
  match ofArguments arguments with
  | .error usage =>
    let stream := if usage.exitCode = 0 then Stream.out else .err
    Script.say stream (usage.message ++ "\n")
    return usage.exitCode
  | .ok command =>
    match ← command.perform.attempt with
    | .ok _ => return 0
    | .error fault =>
      (← Console.detect).failure fault
      return fault.exitCode

end Command

end StyleTokens

/-
What a command tells its user.

A command either prints lines for people or, when the environment asks for it, a
single line of JSON for programs.

* `Console.detect` — which of the two;
* `Console.heading`, `Console.info`, `Console.success`, `Console.warning`,
  `Console.error` — the lines; warnings and errors go to the error stream;
* `Console.summary` — the line of JSON;
* `Console.failure` — why a command failed.
-/
import StyleTokens.Json.Writer
import StyleTokens.Script
import StyleTokens.Text.Blank

namespace StyleTokens

/-- How a command tells what it did. -/
structure Console where
  /-- Only a line of JSON. -/
  json : Bool
  /-- Whether the environment is one for automatic builds. -/
  automatic : Bool
  deriving DecidableEq, Repr, Inhabited

namespace Console

/-- Whether a value switches something on. -/
def isOn (value : Option String) : Bool :=
  match value with
  | some text => ["1", "true", "yes", "on"].contains (Text.lowered text)
  | none => false

/-- The variables that environments for automatic builds set, to whatever value. -/
def automaticSigns : List String :=
  ["CI", "GITHUB_ACTIONS", "GITLAB_CI", "JENKINS_URL", "CIRCLECI", "TRAVIS", "BUILDKITE"]

/-- Whether one of several variables is set. -/
def anySet : List String → Script Bool
  | [] => return false
  | name :: names => do
    if (← Script.request (.environment name)).isSome then return true
    anySet names

/-- The console that the environment asks for. -/
def detect : Script Console := do
  let plain := isOn (← Script.request (.environment "SQLMODEL_PLAIN"))
  let json := isOn (← Script.request (.environment "SQLMODEL_JSON"))
  let automatic ← anySet automaticSigns
  return { json := json && !plain, automatic }

/-- A line for people. -/
def line (console : Console) (stream : Stream) (text : String) : Script Unit :=
  if console.json then return else Script.say stream (text ++ "\n")

/-- A line that tells what the next ones are about. -/
def heading (console : Console) (title : String) : Script Unit :=
  console.line .out ("--- " ++ title ++ " ---")

/-- A plain fact. -/
def info (console : Console) (text : String) : Script Unit :=
  console.line .out ("[INFO] " ++ text)

/-- Something that went well. -/
def success (console : Console) (text : String) : Script Unit :=
  console.line .out ("[OK] " ++ text)

/-- Something to look at. -/
def warning (console : Console) (text : String) : Script Unit :=
  console.line .err ("[WARN] " ++ text)

/-- Something that went wrong. -/
def error (console : Console) (text : String) : Script Unit :=
  console.line .err ("[ERROR] " ++ text)

/-- What the console is, as a program sees it. -/
def mode (console : Console) : Json :=
  .object [
    ("renderer", .string "plain"),
    ("agent", .bool true),
    ("ci", .bool console.automatic),
    ("tty", .bool false),
    ("format", .string "json")]

/-- The line for programs. -/
def summary (console : Console) (members : List (String × Json)) : Script Unit :=
  if console.json then Script.say .out ((Json.object members).sorted.compact ++ "\n") else return

/-- Tells why a command failed, in either form on the error stream. -/
def failure (console : Console) (fault : Fault) : Script Unit :=
  if console.json then
    Script.say .err ((Json.object [
      ("status", .string "error"),
      ("error", .string fault.message),
      ("exit_code", .integer fault.exitCode),
      ("output_mode", console.mode)]).sorted.compact ++ "\n")
  else Script.say .err (fault.message ++ "\n")

end Console

end StyleTokens

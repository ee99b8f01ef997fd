/-
What a shell has for itself, and its actions.

* `Process` — variables, arguments, options and the like;
* `Run` — an action that may be cut short (`Halt`);
* `Run.warn`, `Run.fail` — complaints, with the name of the process and the line;
* `Run.value?`, `Run.assign` — variables;
* `Run.redirecting` — an action with streams that lead elsewhere.

Design notes: what commands of the shell itself write is collected and written when
they are done, behind what they complain about.
-/
import StyleTokens.Shell.Parser
import StyleTokens.Shell.Task

namespace StyleTokens.Shell

/-- A variable, which may be known without having a value. -/
structure Variable where
  value : Option String := none
  /-- Whether child processes get to know it. -/
  exported : Bool := false
  /-- Whether it keeps its value. -/
  fixed : Bool := false
  deriving DecidableEq, Repr, Inhabited

/-- Commands in the background. -/
structure Job where
  number : Nat
  /-- The processes; the last one counts. -/
  ids : List Nat
  /-- How those ended that did. -/
  exits : List (Nat × Exit) := []
  /-- Whether its end has been waited for. -/
  waited : Bool := false
  deriving Repr, Inhabited

/-- What is passed over before commands are carried out again. -/
inductive Skip
  /-- The rest of so many loops. -/
  | leave (count : Nat)
  /-- The rest of so many loops but the last one, which goes on. -/
  | again (count : Nat)
  /-- The rest of a function or file, perhaps with a status of its own. -/
  | back (stated : Bool)
  deriving DecidableEq, Repr, Inhabited

/-- Variables with what they were before. -/
abbrev Frame := List (String × Option Variable)

/-- What a shell has for itself. -/
structure Process where
  /-- The name that it was called by. -/
  name : String := "sh"
  /-- The command of the shell itself that is carried out. -/
  command : Option String := none
  /-- The number of the first of the shells that came from each other. -/
  root : Nat
  id : Nat
  here : Place
  /-- The path of the directory as it was gone. -/
  path : String
  /-- The line that is carried out. -/
  line : Nat := 1
  /-- How the last command ended. -/
  status : Nat := 0
  /-- How the last command ended whose output was taken. -/
  captured : Nat := 0
  /-- The status that counts if the process ends in an action for a signal. -/
  held : Option Nat := none
  skip : Option Skip := none
  bindings : List (String × Variable) := []
  /-- What the variables of the running functions and commands were before. -/
  frames : List Frame := []
  functions : List (String × Statement) := []
  arguments : List String := []
  /-- The argument that is looked at next for options, and how far. -/
  optionIndex : Nat := 1
  optionOffset : Option Nat := none
  /-- The letters of the options that are on. -/
  flags : List Char := []
  /-- How many loops are running. -/
  loops : Nat := 0
  /-- How many functions are running. -/
  depth : Nat := 0
  /-- Actions by the signals that they answer; zero is the end of the process. -/
  traps : List (Nat × String) := []
  /-- The last command in the background. -/
  background : Option Nat := none
  jobs : List Job := []
  aliases : List (String × String) := []
  /-- Programs that were found, by their names. -/
  located : List (String × String) := []
  /-- Permissions that new files do not get. -/
  mask : Nat := 0o022
  /-- What is still to be written to the standard output, in reverse. -/
  collected : List (List Char) := []
  /-- Whether the collected text is that of a command which may fail to write. -/
  broken : Bool := false
  deriving Inhabited

/-- Why an action is cut short. -/
inductive Halt
  /-- The process was asked to end. -/
  | exit
  /-- The process has done its work. -/
  | over
  /-- The process ends, unless a command of the shell itself is to blame. -/
  | failure
  deriving DecidableEq, Repr, Inhabited

/-- An action of a shell. -/
abbrev Run := ExceptT Halt (StateT Process Act)

namespace Run

/-- An act within an action. -/
def act {α : Type} (act : Act α) : Run α :=
  ExceptT.lift (StateT.lift act)

/-- An action, with why it was cut short if it was. -/
def attempt {α : Type} (action : Run α) : Run (Except Halt α) :=
  ExceptT.lift action.run

/-- Goes on as an attempt ended. -/
def resume {α : Type} : Except Halt α → Run α
  | .ok value => return value
  | .error halt => throw halt

/-- A view of the world. -/
def look {α : Type} (view : World → α) : Run α :=
  act (Act.look view)

/-- A change of the world. -/
def update {α : Type} (change : World → World × α) : Run α :=
  act (Act.update change)

/-- The disk as the process sees it. -/
def disk : Run Disk := do
  let here := (← get).here
  look fun world => world.diskFrom here

/-! Output -/

/-- Writes octets to a stream. -/
def write (stream : Nat) (octets : List Char) : Run (Except IoCause Unit) := do
  let id := (← get).id
  act (Act.write id stream (Octets.toBytes octets))

/-- Has octets written to the standard output when the command is done. -/
def put (octets : List Char) : Run Unit :=
  modify fun process => { process with collected := octets :: process.collected }

/-- Has a text written to the standard output when the command is done. -/
def say (text : String) : Run Unit :=
  put text.toList

/-- Writes what was collected. -/
def flush : Run Unit := do
  let octets := (← get).collected.reverse.flatten
  modify fun process => { process with collected := [] }
  if !octets.isEmpty then
    if let .error _ ← write 1 octets then modify fun process => { process with broken := true }

/-- Tells of a problem, with the name of the process and the line. -/
def warn (text : String) : Run Unit := do
  let process ← get
  let command := (process.command.map (· ++ ": ")).getD ""
  let line := process.name ++ ": " ++ toString process.line ++ ": " ++ command ++ text ++ "\n"
  discard (write 2 line.toList)

/-- Sets how the last command ended. -/
def setStatus (status : Nat) : Run Unit :=
  modify fun process => { process with status }

/-- Ends the process. -/
def stop {α : Type} (status : Nat) : Run α := do
  setStatus status
  throw .exit

/-- Tells of a problem that ends the process, unless a command of the shell itself is
to blame. -/
def fail {α : Type} (text : String) : Run α := do
  warn text
  flush
  setStatus 2
  throw .failure

/-! Variables -/

/-- Whether an option is on. -/
def isOn (flag : Char) : Run Bool := do
  return (← get).flags.contains flag

/-- The value of a variable. -/
def value? (name : String) : Run (Option String) := do
  return ((← get).bindings.lookup name).bind (·.value)

/-- Variables with one of them made what is given, or forgotten. -/
def bindingsWith (name : String) (found? : Option Variable) (bindings : List (String × Variable)) :
    List (String × Variable) :=
  match found? with
  | none => bindings.filter (·.1 ≠ name)
  | some found =>
    if bindings.any (·.1 = name) then
      bindings.map fun (other, old) => (other, if other = name then found else old)
    else bindings ++ [(name, found)]

/-- Makes a variable what is given, or forgets it.  Programs are looked for anew where
the directories that are searched change. -/
def restore (name : String) (found? : Option Variable) : Run Unit :=
  modify fun process =>
    { process with
      bindings := bindingsWith name found? process.bindings
      located := if name = "PATH" then [] else process.located }

/-- Gives a variable a value. -/
def assign (name value : String) : Run Unit := do
  if !isName name.toList then fail (name ++ ": bad variable name")
  let process ← get
  let found := (process.bindings.lookup name).getD {}
  if found.fixed then fail (name ++ ": is read only")
  let exported := found.exported || process.flags.contains 'a'
  if name = "OPTIND" then
    if value.isEmpty || !value.all Char.isDigit then fail ("Illegal number: " ++ value)
    let number := value.toList.foldl (fun n c => n * 10 + (c.toNat - 48)) 0
    modify fun process => { process with optionIndex := max number 1, optionOffset := none }
  restore name (some { found with value := some value, exported })

/-- The name under which options are kept. -/
def flagsName : String := "-"

/-- Makes a variable, or the options, what was kept. -/
def putBack (name : String) (found : Option Variable) : Run Unit := do
  if name = flagsName then
    modify fun process => { process with flags := ((found.bind (·.value)).getD "").toList }
  else restore name found

/-- Runs an action and makes all variables that it kept what they were before. -/
def framed {α : Type} (action : Run α) : Run α := do
  modify fun process => { process with frames := [] :: process.frames }
  let result ← attempt action
  let frame := (← get).frames.head?.getD []
  modify fun process => { process with frames := process.frames.drop 1 }
  frame.forM fun (name, found) => putBack name found
  resume result

/-- The place of a name in a table with so many parts. -/
def bucket (parts : Nat) (name : String) : Nat :=
  let codes := name.toList.map Char.toNat
  let total := codes.foldl (· + ·) (16 * codes.head?.getD 0)
  total % 0x8000 % parts

/-- The entries of a table in the order of its parts. -/
def inBuckets {α : Type} (parts : Nat) (entries : List (String × α)) : List (String × α) :=
  entries.mergeSort fun a b => decide (bucket parts a.1 ≤ bucket parts b.1)

/-- The variables that child processes get to know. -/
def environment : Run (List (String × String)) := do
  let found := (← get).bindings.filterMap fun (name, found) =>
    if found.exported then found.value.map (name, ·) else none
  return inBuckets 39 found

/-! Streams -/

/-- Opens what a path leads to and makes a stream lead to it. -/
def openAs (stream : Nat) (path : String) (how : Opening) : Run (Except IoCause Unit) := do
  let process ← get
  act (Act.openAs process.id process.here stream path how)

/-- Streams that an action changes, with the streams that keep what they were. -/
abbrev Kept := List (Nat × Option Nat)

/-- Keeps where a stream leads, unless it was kept already. -/
def keepStream (kept : Kept) (stream : Nat) : Run Kept := do
  if kept.any (·.1 = stream) then return kept
  let id := (← get).id
  let copy ← update fun world =>
    match world.stream? id stream with
    | none => (world, none)
    | some (number, _) =>
      let copy := world.freeStream id keptStreams
      (world.connect id copy number, some copy)
  return (stream, copy) :: kept

/-- Makes streams lead where they led before. -/
def restoreStreams (kept : Kept) : Run Unit := do
  let id := (← get).id
  act (Act.alter fun world =>
    kept.foldl (fun world (stream, copy) =>
      match copy.bind (world.stream? id) with
      | some (number, _) => ((world.connect id stream number).close id (copy.getD 0))
      | none => world.close id stream) world)

end Run

end StyleTokens.Shell

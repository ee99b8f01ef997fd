/-
Commands of the shell for processes.

* `Run.showJobs` — `jobs`;
* `Run.waitFor` — `wait`;
* `Run.kill` — `kill`;
* `Run.continueJob` — `fg` and `bg`, which need a terminal;
* `Run.trap` — `trap`.
-/
import StyleTokens.Shell.Builtin.Basic
import StyleTokens.Shell.Job

namespace StyleTokens.Shell.Run

/-- Digits as a number. -/
def digitsOf? (text : String) : Option Nat :=
  if text.isEmpty || !text.all Char.isDigit then none
  else some (text.toList.foldl (fun n c => n * 10 + (c.toNat - 48)) 0)

/-! Jobs -/

/-- How a job is shown. -/
inductive JobView
  | line
  /-- With the numbers of the processes. -/
  | processes
  /-- Only the number of the first process. -/
  | leader
  deriving DecidableEq, Repr, Inhabited

/-- Shows a job, which is forgotten if it has ended. -/
def showJob (view : JobView) (job : Job) : Run Unit := do
  let jobs := (← get).jobs
  let sign :=
    if jobs.head?.map (·.number) = some job.number then "+"
    else if (jobs.drop 1).head?.map (·.number) = some job.number then "-" else " "
  let start := "[" ++ toString job.number ++ "] " ++ sign ++ " "
  let state := if job.isRunning then "Running" else job.exit.message
  let blanks := fun (count : Nat) => String.ofList (List.replicate count ' ')
  let padded := fun (text : String) => text ++ blanks (max 1 (33 - text.length))
  match view with
  | .leader => say (toString (job.ids.head?.getD 0) ++ "\n")
  | .line =>
    let others := job.ids.drop 1
    say (padded (start ++ state) ++ String.join (others.map fun _ => " | ") ++ "\n")
  | .processes =>
    match job.ids with
    | [] => return
    | first :: others =>
      say (padded (start ++ toString first ++ " " ++ state))
      others.forM fun id =>
        let line := " |\n" ++ blanks start.length ++ toString id ++ " "
        say (line ++ blanks (max 1 (33 - (line.length - 3))))
      say "\n"
  if view ≠ .leader && !job.isRunning then
    modify fun process => { process with
      jobs := process.jobs.filter (·.number ≠ job.number) }

/-- The command `jobs`. -/
def showJobs (arguments : List String) : Run Nat := do
  let (options, rest) ← letters "lp" arguments
  let view : JobView :=
    match options.getLast? with
    | some ('l', _) => .processes
    | some _ => .leader
    | none => .line
  collect
  if rest.isEmpty then
    let jobs := (← get).jobs
    jobs.forM (showJob view)
  else
    for text in rest do
      showJob view (← findJob text)
  return 0

/-- The command `fg` or `bg`. -/
def continueJob (arguments : List String) : Run Nat := do
  let (_, rest) ← letters "" arguments
  let text := rest.head?.getD "%%"
  discard (findJob text)
  if rest.isEmpty then fail "job (null) not created under job control"
  fail ("job " ++ text ++ " not created under job control")

/-! Waiting -/

/-- Jobs of which no job has more processes together. -/
def waitLimit : Nat := 1000000

/-- Waits for one process or job; gives its status, or the signal that came first. -/
def waitForOne (text : String) : Run (Nat × Bool) := do
  let job? ←
    if text.startsWith "%" then pure (some (← findJob text))
    else
      let id ← numberOf text
      let jobs := (← get).jobs
      pure (jobs.find? fun job => (job.ids.getLast?.map Int.ofNat) = some id)
  match job? with
  | none => return (127, true)
  | some job =>
    match ← awaitJob waitLimit job.number with
    | some signal => return (128 + signal, false)
    | none =>
      changeJob job.number fun job => { job with waited := true }
      return (((← jobOf? job.number).map (·.exit.code)).getD 127, true)

/-- The command `wait`. -/
def waitFor (arguments : List String) : Run Nat := do
  let (_, rest) ← letters "" arguments
  if rest.isEmpty then
    match ← awaitJobs waitLimit with
    | some signal => return 128 + signal
    | none => return 0
  else each rest 127
where
  /-- Waits for one after another, until a signal comes. -/
  each : List String → Nat → Run Nat
    | [], status => return status
    | text :: rest, _ => do
      match ← waitForOne text with
      | (status, false) => return status
      | (status, true) => each rest status

/-! Signals -/

/-- Refuses the arguments of `kill`. -/
def refuseKill {α : Type} : Run α :=
  fail ("Usage: kill [-s sigspec | -signum | -sigspec] [pid | job]... or\n" ++
    "kill -l [exitstatus]")

/-- Sends a signal to a process, or to all for zero and less; gives whether there is
one. -/
def send (signal : Nat) (id : Int) : Run Bool := do
  let isThere ← update fun world =>
    if 0 < id then
      match world.member? id.toNat with
      | some _ => (world.signal id.toNat signal, true)
      | none => (world, false)
    else if id = 0 || id = -(world.members.getLast?.map (fun member => (member.id : Int))).getD 0 then
      (world.members.foldl (fun world member => world.signal member.id signal) world, true)
    else (world, false)
  return isThere

/-- Sends a signal to one process or job after another. -/
def sendAll (signal : Nat) : List String → Nat → Run Nat
  | [], status => return status
  | text :: rest, status => do
    let id : Int ←
      if text.startsWith "%" then
        let job ← findJob text
        pure (-((job.ids.head?.getD 0 : Nat) : Int))
      else if text.startsWith "-" then pure (-(← numberOf (String.ofList (text.toList.drop 1))))
      else numberOf text
    if ← send signal id then sendAll signal rest status
    else
      warn "No such process\n"
      sendAll signal rest 1

/-- Lists the names of signals, or the one of a status. -/
def listSignals : List String → Run Nat
  | [] => do
    say "0\n"
    ((List.range Signal.count).drop 1).forM fun number => say (Signal.name number ++ "\n")
    return 0
  | text :: _ => do
    let number ← numberOf text
    let signal := if 128 < number then number - 128 else number
    if 0 < signal && signal < Signal.count then
      say (Signal.name signal.toNat ++ "\n")
      return 0
    else fail ("invalid signal number or exit status: " ++ text)

/-- The signal and the rest of the arguments of `kill`; no signal if a list is asked
for. -/
def killOptions (arguments : List String) : Run (Option Nat × List String) := do
  let (options, rest) ← letters "ls:" arguments
  let signal ← options.foldlM (fun signal (letter, value) => do
    if letter = 'l' then return signal
    match Signal.number? 1 value with
    | some number => return some number
    | none => fail ("invalid signal number or name: " ++ value)) (some 15)
  return (if options.any (·.1 = 'l') then none else signal, rest)

/-- The command `kill`. -/
def kill (arguments : List String) : Run Nat := do
  match arguments with
  | [] => refuseKill
  | first :: rest =>
    let direct :=
      match first.toList with
      | '-' :: name => Signal.number? 1 (String.ofList name)
      | _ => none
    let (signal, rest) ←
      match direct with
      | some signal => pure (some signal, rest)
      | none =>
        if first.startsWith "-" then killOptions arguments else pure (some 15, arguments)
    match signal with
    | none => listSignals rest
    | some signal => if rest.isEmpty then refuseKill else sendAll signal rest 0

/-! Actions for signals -/

/-- Has the world know which signals are caught, and which ignored. -/
def announceTraps : Run Unit := do
  let process ← get
  let signals := process.traps.filter (·.1 ≠ 0)
  let caught := (signals.filter fun (_, commands) => !commands.isEmpty).map (·.1)
  let ignored := (signals.filter fun (_, commands) => commands.isEmpty).map (·.1)
  act (Act.alter fun world => world.changeMember process.id fun member =>
    { member with caught, ignored })

/-- Sets what is done for signals. -/
def setTraps (commands : Option String) : List String → Run Nat
  | [] => do
    announceTraps
    return 0
  | name :: rest => do
    match Signal.number? 0 name with
    | none =>
      announceTraps
      discard (write 2 ("trap: " ++ name ++ ": bad trap\n").toList)
      return 1
    | some signal =>
      modify fun process =>
        let others := process.traps.filter (·.1 ≠ signal)
        { process with traps := match commands with
          | some commands => (signal, commands) :: others
          | none => others }
      setTraps commands rest

/-- The command `trap`. -/
def trap (arguments : List String) : Run Nat := do
  let (_, rest) ← letters "" arguments
  match rest with
  | [] =>
    let traps := (← get).traps.mergeSort fun a b => decide (a.1 ≤ b.1)
    traps.forM fun (signal, commands) =>
      say ("trap -- " ++ inQuotes commands ++ " " ++ Signal.name signal ++ "\n")
    return 0
  | [name] => setTraps none [name]
  | first :: others =>
    if (digitsOf? first).any (· < Signal.count) then setTraps none rest
    else setTraps (if first = "-" then none else some first) others

end StyleTokens.Shell.Run

/-
The shell as a whole.

* `Run.evaluator` — the evaluator with so much fuel;
* `Run.script` — the lines of a script;
* `Run.launch` — what a process becomes;
* `Shell.run` — the reply of a shell to a job.

Design notes: fuel bounds how deep the work is nested, and how often a loop is
repeated.  There is more of it than the machine takes steps, so that only the time
bounds a job.
-/
import StyleTokens.Host
import StyleTokens.Shell.Execution
import StyleTokens.Shell.Machine

namespace StyleTokens.Shell

namespace Run

/-- Carries out a script, line by line; `status` is that of the lines before. -/
def script (evaluator : Evaluator) (mode : Mode) (isFile : Bool) (source : Source) (status : Nat) :
    Run Nat := do
  match ({ source with aliases := (← get).aliases } : Source).next? with
  | .error bad =>
    setLine bad.line
    fail bad.reason
  | .ok none => return status
  | .ok (some (statement, rest)) =>
    let after ← evaluator (.statement mode.inner statement)
    let status :=
      match statement with
      | .skip => status
      | _ => after
    match (← get).skip with
    | none => evaluator (.script mode isFile rest status)
    | some (.back _) =>
      if isFile then modify fun process => { process with skip := none }
      return status
    | some _ => return status

/-! Shells -/

/-- What a shell carries out. -/
inductive Work
  | command (text : String)
  | file (path : String)
  | input
  deriving Inhabited

/-- Sets options and arguments of a shell from those it was called with; gives what it
is to do. -/
def shellWork (arguments : List String) : Run Work := do
  let (rest, _, hasCommand) ← setOptions true (arguments.length + 1) arguments
  let named := fun (work : Work) (rest : List String) => do
    match rest with
    | [] => pure ()
    | name :: rest =>
      modify fun process => { process with name }
      setArguments rest
    return work
  match rest with
  | [] =>
    if hasCommand then fail "-c requires an argument"
    setFlag.turn true 's'
    return .input
  | first :: others =>
    if hasCommand then named (.command first) others
    else if ← isOn 's' then
      setArguments rest
      return .input
    else return .file first

/-- All octets of the standard input. -/
def inputText : Run (List Char) := do
  let data ← act (Act.readAll (← get).id 0 Act.portionLimit .empty)
  return (Octets.ofBytes (data.toOption.getD .empty)).filter (· ≠ Char.ofNat 0)

/-- All that a shell does. -/
def shellMain (evaluator : Evaluator) (arguments : List String) : Run Nat := do
  setLine 0
  let work ← shellWork arguments
  match work with
  | .command text =>
    setLine 1
    let readsOn ← isOn 's'
    let status ← Run.text evaluator {} text
    if readsOn then evaluator (.script {} true { rest := ← inputText } status) else return status
  | .file path =>
    let text ← sourceText path
    setLine 1
    modify fun process => { process with name := path }
    setArguments (arguments.drop ((arguments.takeWhile (· ≠ path)).length + 1))
    evaluator (.script {} true { rest := text } 0)
  | .input =>
    setLine 1
    evaluator (.script {} true { rest := ← inputText } 0)

/-- The variables that a shell starts with, besides those of its environment. -/
def ownVariables (parent : Nat) (path : String) : List (String × Variable) := [
  ("IFS", { value := some " \t\n" }), ("PATH", { value := some Program.usualPath }),
  ("PS1", { value := some "# " }), ("PS2", { value := some "> " }),
  ("PS4", { value := some "+ " }), ("OPTIND", { value := some "1" }),
  ("PPID", { value := some (toString parent) }),
  ("PWD", { value := some path, exported := true })]

/-- A shell that begins, with an environment. -/
def newShell (world : World) (id : Nat) (here : Place) (mask : Nat)
    (environment : List (String × String)) (name : String) : Process :=
  let known := (environment.lookup "PWD").filter fun path =>
    path.startsWith "/" &&
      match world.entryAt id here true path with
      | .ok (some place, _) => place = here
      | _ => false
  let path := known.getD (pathText here)
  let parent := ((world.member? id).map (·.parent)).getD 0
  let own := ownVariables parent path
  let given := environment.filter fun (variableName, _) =>
    isName variableName.toList &&
      !(["IFS", "OPTIND", "PPID", "PWD"].contains variableName)
  let bindings := given.foldl (fun bindings (variableName, value) =>
    bindingsWith variableName (some { value := some value, exported := true }) bindings) own
  { name, root := id, id, here, path, mask, bindings }

/-- A shell in the place of the process, up to its end. -/
def becomeShell {α : Type} (evaluator : Evaluator) (environment : List (String × String))
    (arguments : List String) : Run α := do
  let process ← get
  let world ← look id
  let name := arguments.head?.getD "sh"
  MonadStateOf.set (newShell world process.id process.here process.mask environment name)
  let status ← lifetime evaluator (shellMain evaluator (arguments.drop 1))
  act (Act.finish (.status (status % 256)))

/-! Programs -/

/-- The interpreter that the first line of a file names, with its argument. -/
def interpreter? (data : ByteArray) : Option (List String) :=
  match (Octets.ofBytes (data.extract 0 256)).takeWhile (· ≠ '\n') with
  | '#' :: '!' :: line =>
    let isBlank := fun (c : Char) => c = ' ' || c = '\t'
    let trimmed := ((line.dropWhile isBlank).reverse.dropWhile isBlank).reverse
    let path := trimmed.takeWhile (!isBlank ·)
    let argument := (trimmed.drop path.length).dropWhile isBlank
    let words := if argument.isEmpty then [path] else [path, argument]
    some (words.map String.ofList)
  | _ => none

/-- The process as a new program finds it: streams that the shell kept for itself are
closed, and no signal is caught. -/
def cleared (id : Nat) (world : World) : World :=
  let streams := ((world.member? id).map (·.streams)).getD []
  let kept := (streams.map (·.1)).filter (keptStreams ≤ ·)
  let world := world.changeMember id fun member => { member with caught := [], pending := [] }
  kept.foldl (fun world stream => world.close id stream) world

/-- Puts the program at a path in the place of the process; goes on if this is not
possible, with the cause. -/
def launch (evaluator : Evaluator) (path : String) (environment : List (String × String))
    (arguments : List String) : Run IoCause := do
  let process ← get
  match ← look fun world => Program.find? world process.id process.here path with
  | .error cause => return cause
  | .ok .other => return .permissionDenied
  | .ok (.file data mode) =>
    if mode &&& 0o111 = 0 then return .permissionDenied
    match interpreter? data with
    | some (interpreter :: more) =>
      let arguments := interpreter :: more ++ path :: arguments.drop 1
      evaluator (.launch interpreter environment arguments)
    | _ =>
      act (Act.alter (cleared process.id))
      becomeShell evaluator environment ("/bin/sh" :: path :: arguments.drop 1)
  | .ok (.program .shell) =>
    act (Act.alter (cleared process.id))
    becomeShell evaluator environment arguments
  | .ok (.program program) =>
    act (Act.alter (cleared process.id))
    let (run, failed) :=
      match program with
      | .tool run failed => (run, failed)
      | _ => (Program.which, 1)
    let call : Call := {
      name := arguments.head?.getD "", id := process.id, here := process.here, environment
      mask := process.mask, arguments := arguments.drop 1
      start := fun id environment arguments => do
        let path := (environment.lookup "PATH").getD Program.usualPath
        let (result, _) ← (exec evaluator environment path arguments).run.run { process with id }
        match result with
        | .ok cause => return cause
        | .error _ => return .notFound }
    let status ← act (Tool.toAct run failed call)
    act (Act.finish (.status (status % 256)))

/-- The evaluator with so much fuel. -/
def evaluator : (fuel : Nat) → Evaluator
  | 0, _ => act (Act.await fun _ => none)
  | fuel + 1, demand =>
    match demand with
    | .statement mode statement => execute (evaluator fuel) mode statement
    | .loop mode inverted condition body status =>
      loop (evaluator fuel) mode inverted condition body status
    | .script mode isFile source status => script (evaluator fuel) mode isFile source status
    | .launch path environment arguments => launch (evaluator fuel) path environment arguments

end Run

/-! Jobs of others -/

/-- Fuel of a shell and of its machine. -/
def ample : Nat := 1000000000000000

/-- Milliseconds that processes have to end when their time is over. -/
def grace : Nat := 250

/-- The number of the first process. -/
def firstId : Nat := 1000

/-- The machine with the shell of a job in a directory. -/
def machineOf (environment : List (String × String)) (job : StyleTokens.Job) (place : Place)
    (disk : Disk) :
    Machine :=
  let world : World := { disk, members := [{ id := firstId, parent := firstId - 1 }] }
  let opened := fun (world : World) (stream : Nat) (path : String) (how : Opening) =>
    match world.openPath firstId disk.here path how with
    | (world, .ok number) => world.connect firstId stream number
    | (world, .error _) =>
      let (world, number) := world.addFile { target := .device .null, writes := true }
      world.connect firstId stream number
  let output : Opening := { writes := true, creates := true, empties := true }
  let world := opened world 0 "/dev/null" { reads := true }
  let world := opened world 1 (Octets.ofText job.outLog.text) output
  let world := opened world 2 (Octets.ofText job.errLog.text) output
  let environment := environment.map fun (name, value) => (Octets.ofText name, Octets.ofText value)
  let arguments := ["sh", "-c", Octets.ofText job.command]
  let shell : Run Nat := Run.becomeShell (Run.evaluator ample) environment arguments
  let process : Process := { root := firstId, id := firstId, here := place, path := "" }
  let act : Act Nat := do
    discard (shell.run.run process)
    return 0
  { world, ready := [(firstId, Act.toTask act)] }

/-- How a shell replies to a job. -/
def run (environment : List (String × String)) (job : StyleTokens.Job) (disk : Disk) : ShellReply :=
  if job.command.contains '\x00' then
    { result := .error (.other "nul byte found in provided data"), disk }
  else
    match disk.find true job.directory with
    | .error cause => { result := .error cause, disk }
    | .ok (.absent _ _) => { result := .error .notFound, disk }
    | .ok (.at place .directory) =>
      let limit := job.limit.milliseconds
      let (machine, exit?) := (machineOf environment job place disk).run firstId limit ample
      let (machine, result) : Machine × JobEnd :=
        match exit? with
        | some (.status code) => (machine.rest ample, .exited (some ((code : Nat) : Int)))
        | some (.signal _) => (machine.rest ample, .exited none)
        | none =>
          let (machine, _) := (machine.signalAll 15).run firstId (limit + grace) ample
          (machine, .overdue)
      { result := .ok result
        disk := { machine.world.disk with here := disk.here }
        milliseconds := min machine.world.clock limit }
    | .ok (.at _ _) => { result := .error .notDirectory, disk }

end StyleTokens.Shell

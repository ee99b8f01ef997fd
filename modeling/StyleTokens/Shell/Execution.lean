/-
Carrying out statements.

* `Run.execute` — a statement;
* `Run.simple` — a simple command, with its assignments and redirections;
* `Run.callBuiltin`, `Run.callFunction` — what a command may stand for;
* `Run.pipeline`, `Run.subshell` — processes of their own;
* `Run.exec` — a program in the place of the process.

Design notes: what skips statements (`Skip`) is noted in the process and looked at
after each of them, so that all that was begun is also ended.
-/
import StyleTokens.Shell.Builtin.Basic
import StyleTokens.Shell.Builtin.Directory
import StyleTokens.Shell.Builtin.Job
import StyleTokens.Shell.Builtin.Naming
import StyleTokens.Shell.Builtin.Variable
import StyleTokens.Shell.Redirection

namespace StyleTokens.Shell.Run

/-- Answers signals that have come. -/
def answerSignals (evaluator : Evaluator) : Run Unit :=
  answer evaluator signalLimit

/-- Whether commands are to be carried out for signals. -/
def hasTraps : Run Bool := do
  return (← get).traps.any fun (_, commands) => !commands.isEmpty

/-- Notes the line that is carried out. -/
def setLine (line : Nat) : Run Unit :=
  modify fun process => { process with line }

/-! Programs -/

/-- The program at a path, in the place of the process; goes on if this fails, with the
cause. -/
def launchAt (evaluator : Evaluator) (path : String) (arguments : List String) : Run IoCause := do
  evaluator (.launch path (← environment) arguments)

/-- A program that is looked for along the directories of a path variable, in the place
of the process; goes on if this fails, with the cause. -/
def launchAlong (evaluator : Evaluator) (environment : List (String × String))
    (arguments : List String) : (directories : List String) → (cause : IoCause) → Run IoCause
  | [], cause => return cause
  | directory :: rest, cause => do
    let path := Program.inDirectory directory (arguments.head?.getD "")
    match ← evaluator (.launch path environment arguments) with
    | .notFound | .notDirectory => launchAlong evaluator environment arguments rest cause
    | other => launchAlong evaluator environment arguments rest other

/-- A program in the place of the process, by its name or path. -/
def exec (evaluator : Evaluator) (environment : List (String × String)) (path : String)
    (arguments : List String) : Run IoCause := do
  let name := arguments.head?.getD ""
  if name.contains '/' then evaluator (.launch name environment arguments)
  else launchAlong evaluator environment arguments (Program.directoriesOf path) .notFound

/-- Ends the process because a program could not be started. -/
def refuseStart {α : Type} (name : String) (cause : IoCause) : Run α := do
  warn (name ++ ": " ++ startReason cause)
  setStatus (startStatus cause)
  throw .over

/-- Carries out a program that was found, in a process of its own unless this one has
nothing else to do. -/
def callProgram (evaluator : Evaluator) (mode : Mode) (path : String) (arguments : List String) :
    Run Nat := do
  let start : Run Nat := do
    let cause ← launchAt evaluator path arguments
    refuseStart (arguments.head?.getD "") cause
  if mode.last && !(← hasTraps) then start
  else
    discard claim
    let id ← fork evaluator start
    await [id]

/-! Commands of the shell itself -/

/-- The command `exec`. -/
def execCommand (evaluator : Evaluator) (arguments : List String) : Run Nat := do
  match arguments with
  | [] => return 0
  | name :: _ =>
    let cause ← exec evaluator (← environment) (← searchPath) arguments
    refuseStart name cause

/-- The command `break` or `continue`. -/
def leaveLoops (goesOn : Bool) (arguments : List String) : Run Nat := do
  let count : Int ←
    match arguments with
    | [] => pure 1
    | text :: _ =>
      let count ← numberOf text
      if count ≤ 0 then fail ("Illegal number: " ++ text)
      pure count
  let loops := (← get).loops
  let count := min count.toNat loops
  if 0 < count then
    modify fun process => { process with
      skip := some (if goesOn then .again count else .leave count) }
  return 0

/-- The command `return`. -/
def goBack (arguments : List String) : Run Nat := do
  let status ←
    match arguments with
    | [] => pure (← get).status
    | text :: _ => pure (statusOf (← numberOf text))
  modify fun process => { process with skip := some (.back !arguments.isEmpty) }
  return status

/-- The command `exit`. -/
def exit (arguments : List String) : Run Nat := do
  if let text :: _ := arguments then
    let status := statusOf (← numberOf text)
    modify fun process => { process with held := some status }
  throw .exit

/-- The path of a file with commands. -/
def sourcePath (name : String) : Run String := do
  if name.contains '/' then return name
  let process ← get
  let path ← searchPath
  let found ← look fun world => (Program.directoriesOf path).findSome? fun directory =>
    let path := Program.inDirectory directory name
    match world.entryAt process.id process.here true path with
    | .ok (some _, .file _) => some path
    | _ => none
  match found with
  | some path => return path
  | none => fail (name ++ ": not found")

/-- The octets of a file with commands. -/
def sourceText (path : String) : Run (List Char) := do
  let process ← get
  match ← openAs (keptStreams + 500) path { reads := true } with
  | .error cause => refuseToOpen false path cause
  | .ok _ =>
    let data ← act (Act.readAll process.id (keptStreams + 500) Act.portionLimit .empty)
    act (Act.close process.id (keptStreams + 500))
    return (Octets.ofBytes (data.toOption.getD .empty)).filter (· ≠ Char.ofNat 0)

/-- The command `.`. -/
def source (evaluator : Evaluator) (arguments : List String) : Run Nat := do
  let (_, rest) ← letters "" arguments
  match rest with
  | [] => return 0
  | name :: _ =>
    let path ← sourcePath name
    let text ← sourceText path
    modify fun process => { process with command := some path }
    evaluator (.script {} true { rest := text } 0)

/-- The command `eval`. -/
def evaluate (evaluator : Evaluator) (mode : Mode) (arguments : List String) : Run Nat := do
  if arguments.isEmpty then return 0
  text evaluator { tested := mode.tested } (" ".intercalate arguments)

/-- A command of the shell itself. -/
def builtin (evaluator : Evaluator) (mode : Mode) (name : String) (arguments : List String) :
    Run Nat := do
  match name with
  | "." => source evaluator arguments
  | ":" | "true" => return 0
  | "false" => return 1
  | "[" | "test" => test name arguments
  | "alias" => giveAlias arguments
  | "bg" | "fg" => continueJob arguments
  | "break" => leaveLoops false arguments
  | "cd" | "chdir" => changeDirectory arguments
  | "command" => describeCommand arguments
  | "continue" => leaveLoops true arguments
  | "echo" => echo arguments
  | "eval" => evaluate evaluator mode arguments
  | "exec" => execCommand evaluator arguments
  | "exit" => exit arguments
  | "export" | "readonly" => exportAll name arguments
  | "getopts" => getopts arguments
  | "hash" => hash arguments
  | "jobs" => showJobs arguments
  | "kill" => kill arguments
  | "local" => localize arguments
  | "printf" => printf arguments
  | "pwd" => showDirectory arguments
  | "read" => readLine arguments
  | "return" => goBack arguments
  | "set" => set arguments
  | "shift" => shift arguments
  | "times" => times
  | "trap" => trap arguments
  | "type" => type arguments
  | "ulimit" => ulimit arguments
  | "umask" => umask arguments
  | "unalias" => unalias arguments
  | "unset" => unset arguments
  | "wait" => waitFor arguments
  | _ => return 127

/-- Carries out a command of the shell itself and writes what it has collected; gives
why it was cut short if it was. -/
def callBuiltin (name : Option String) (body : Run Nat) : Run (Except Halt Nat) := do
  let command := (← get).command
  modify fun process => { process with command := name }
  let result ← attempt do
    let status ← body
    flush
    let status ←
      if (← get).broken then
        warn (name.getD "" ++ ": I/O error")
        pure (status ||| 1)
      else pure status
    setStatus status
    return status
  modify fun process => { process with command, collected := [], broken := false }
  return result

/-! Functions -/

/-- How deep functions may call each other. -/
def functionLimit : Nat := 1000

/-- Carries out the body of a function with arguments. -/
def callFunction (evaluator : Evaluator) (mode : Mode) (body : Statement)
    (arguments : List String) : Run Nat := do
  let before ← get
  if functionLimit ≤ before.depth then
    fail ("Maximum function recursion depth (" ++ toString functionLimit ++ ") reached")
  modify fun process => { process with
    depth := process.depth + 1, loops := 0, arguments, optionIndex := 1, optionOffset := none }
  let result ← attempt (evaluator (.statement { tested := mode.tested } body))
  modify fun process => { process with
    depth := before.depth, loops := before.loops, arguments := before.arguments
    optionIndex := before.optionIndex, optionOffset := before.optionOffset
    skip := match process.skip with
      | some (.back _) => none
      | skip => skip }
  discard (resume result)
  return (← get).status

/-! Simple commands -/

/-- What a command stands for. -/
inductive Meaning
  /-- There is no command, only assignments. -/
  | nothing
  | builtin (name : String)
  | function (body : Statement)
  | other
  deriving Inhabited

/-- What a name stands for. -/
def meaning (withFunctions : Bool) (name : String) : Run Meaning := do
  let process ← get
  match if withFunctions then process.functions.lookup name else none with
  | some body => return .function body
  | none => return if isBuiltin name then .builtin name else .other

/-- A simple command as its words are looked at. -/
structure Command where
  /-- All fields of the words, as they are traced. -/
  traced : List String := []
  /-- Those of the command that is carried out. -/
  fields : List String := []
  /-- Words that were not expanded. -/
  rest : List Word := []
  meaning : Meaning := .nothing
  /-- Whether the command is special, as its first name tells. -/
  special : Option Bool := none
  /-- Where programs are looked for, if this is not the usual path. -/
  path : Option String := none
  /-- Whether functions are not looked at. -/
  direct : Bool := false
  deriving Inhabited

/-- The fields of the first words that have any, and the words left. -/
def firstFields (evaluator : Evaluator) : List Word → Run (List String × List Word)
  | [] => return ([], [])
  | word :: rest => do
    match ← fieldsOf evaluator word with
    | [] => firstFields evaluator rest
    | fields => return (fields, rest)

/-- The command with more fields, if there are more words. -/
def filled (evaluator : Evaluator) (command : Command) : Run Command := do
  let (fields, rest) ← firstFields evaluator command.rest
  return { command with
    traced := command.traced ++ fields, fields := command.fields ++ fields, rest }

/-- The command behind the word `command` and its options; none if these ask for
something else.  `fields` are those that were not looked at; `fuel` bounds the number
of options. -/
def behind (evaluator : Evaluator) : (fuel : Nat) → Command → (fields : List String) →
    (path : Option String) → Run (Command × Option (List String × Option String))
  | 0, command, _, _ => return (command, none)
  | fuel + 1, command, fields, path => do
    let (command, fields) ←
      if fields.isEmpty then
        let before := command.fields.length
        let command ← filled evaluator command
        pure (command, command.fields.drop before)
      else pure (command, fields)
    match fields with
    | [] => return (command, none)
    | "--" :: fields =>
      if !fields.isEmpty then return (command, some (fields, path))
      let before := command.fields.length
      let command ← filled evaluator command
      let fields := command.fields.drop before
      return (command, if fields.isEmpty then none else some (fields, path))
    | field :: others =>
      match field.toList with
      | '-' :: letter :: letters =>
        if (letter :: letters).all (· = 'p') then
          behind evaluator fuel command others (some Program.usualPath)
        else return (command, none)
      | _ => return (command, some (fields, path))

/-- Looks at the names of a command, as long as they are `command`; `fuel` bounds their
number. -/
def understood (evaluator : Evaluator) : (fuel : Nat) → Command → Run Command
  | 0, command => return command
  | fuel + 1, command => do
    match command.fields with
    | [] => return command
    | name :: fields =>
      match ← meaning (!command.direct) name with
      | .builtin name =>
        let special := command.special.or (some (isSpecial name))
        let command := { command with meaning := .builtin name, special }
        if name ≠ "command" then return command
        match ← behind evaluator (wordFuel) command fields command.path with
        | (command, none) => return command
        | (command, some (fields, path)) =>
          understood evaluator fuel { command with fields, path, direct := true }
      | meaning => return { command with meaning }

/-- Whether a command of the shell takes assignments as arguments. -/
def assigns : Meaning → Bool
  | .builtin name => ["export", "local", "readonly"].contains name
  | _ => false

/-- Writes a command before it is carried out. -/
def trace (evaluator : Evaluator) (kept : Kept) (words : List String) : Run Unit := do
  if ← isOn 'x' then
    let start ←
      match ← value? "PS4" with
      | some text => pure (Stretch.text (← stretches evaluator wordFuel {} false (Source.text text)))
      | none => pure ""
    let stream := ((kept.lookup 2).bind id).getD 2
    discard (write stream (start ++ " ".intercalate words ++ "\n").toList)

/-- Gives variables their values, for the command only or for good; gives them as they
are traced. -/
def assignAll (evaluator : Evaluator) (isLocal exported : Bool) :
    List (String × Word) → Run (List String)
  | [] => return []
  | (name, word) :: rest => do
    let text ← assignedText evaluator word
    let argument := name ++ "=" ++ text
    let change := fun (found : Variable) => { found with exported := true }
    if isLocal then makeLocal change argument
    else if exported then mark change argument
    else assign name text
    return argument :: (← assignAll evaluator isLocal exported rest)

/-- Carries out what a command stands for. -/
def call (evaluator : Evaluator) (mode : Mode) (command : Command) : Run Nat := do
  let name := command.fields.head?.getD ""
  let arguments := command.fields.drop 1
  match command.meaning with
  | .nothing => return ← finished none (return (← get).captured)
  | .builtin name => finished (some name) (builtin evaluator mode name arguments)
  | .function body => callFunction evaluator mode body arguments
  | .other =>
    let found ←
      if name.contains '/' then pure (.ok name)
      else
        match command.path with
        | some path => locateIn path name
        | none => locate name
    match found with
    | .ok path => callProgram evaluator mode path command.fields
    | .error cause =>
      warn (name ++ ": " ++ startReason cause)
      return 127
where
  /-- Goes on after a command of the shell itself. -/
  finished (name : Option String) (body : Run Nat) : Run Nat := do
    match ← callBuiltin name body with
    | .ok status => return status
    | .error .failure =>
      if command.special = some true then throw .failure else return (← get).status
    | .error halt => throw halt

/-- Whether the command keeps its redirections. -/
def keepsStreams (command : Command) : Bool :=
  match command.meaning with
  | .builtin "exec" => true
  | _ => false

/-- A simple command. -/
def simple (evaluator : Evaluator) (mode : Mode) (line : Nat) (assignments : List (String × Word))
    (words : List Word) (redirects : List Redirect) : Run Nat := do
  setLine line
  modify fun process => { process with captured := 0 }
  let command ← filled evaluator { rest := words }
  let command ← understood evaluator wordFuel command
  let expand := if assigns command.meaning then assigningField evaluator else fieldsOf evaluator
  let more := (← command.rest.mapM expand).flatten
  let command := { command with
    traced := command.traced ++ more, fields := command.fields ++ more, rest := [] }
  let isLocal := command.special.map (!·) |>.getD (!command.fields.isEmpty)
  let exported := keepsStreams command && 1 < command.fields.length
  let body : Run Nat := do
    let aims ← aimed evaluator redirects
    let (kept, status) ← redirect evaluator true [] aims
    let result ← attempt do
      if status ≠ 0 then
        setStatus status
        if command.special = some true then throw .failure
        return status
      let assigned ← assignAll evaluator isLocal exported assignments
      trace evaluator kept (assigned ++ command.traced)
      call evaluator mode command
    if keepsStreams command && status = 0 then dropStreams kept else restoreStreams kept
    resume result
  if isLocal then framed body else body

/-! Compound commands -/

/-- Commands with pipes between them; gives the numbers of their processes.  `before`
is the stream that the first of them reads from. -/
def pipeline (evaluator : Evaluator) (mode : Mode) (background : Bool) (before : Option Nat) :
    List Statement → Run (List Nat)
  | [] => return []
  | stage :: rest => do
    let self := (← get).id
    let next ← update fun world =>
      if rest.isEmpty then (world, none)
      else
        let (world, source, goal) := world.openPipe
        let stream := keptStreams + world.fresh
        ((world.connect self stream source).connect self (stream + 1) goal, some stream)
    let id ← fork evaluator do
      let self := (← get).id
      if background then leaveTerminal before.isNone
      act (Act.alter fun world =>
        let world := match next with
          | some stream => world.close self stream
          | none => world
        let world := moved world self before 0
        moved world self (next.map (· + 1)) 1)
      evaluator (.statement { mode with last := true } stage)
    act (Act.alter fun world =>
      let world := match before with
        | some stream => world.close self stream
        | none => world
      match next with
      | some stream => world.close self (stream + 1)
      | none => world)
    return id :: (← pipeline evaluator mode background next rest)
where
  /-- Makes a stream lead where another one led, which is closed. -/
  moved (world : World) (self : Nat) (source : Option Nat) (goal : Nat) : World :=
    match source.bind (world.stream? self) with
    | some (number, _) => (world.connect self goal number).close self (source.getD 0)
    | none => world
  /-- Lets a process go on in the background: it has no input of its own and is not
  interrupted. -/
  leaveTerminal (first : Bool) : Run Unit := do
    let process ← get
    act (Act.alter fun world => world.changeMember process.id fun member =>
      { member with ignored := 2 :: 3 :: member.ignored })
    if first then
      discard (openAs 0 "/dev/null" { reads := true })

/-- Commands in a process of their own, unless this one has nothing else to do. -/
def subshell (evaluator : Evaluator) (mode : Mode) (background : Bool) (line : Nat)
    (body : Statement) (redirects : List Redirect) : Run Nat := do
  setLine line
  let aims ← aimed evaluator redirects
  let tested := mode.tested && !background
  let run : Run Nat := do
    let (_, status) ← redirect evaluator false [] aims
    if status ≠ 0 then throw .failure
    evaluator (.statement { tested, last := true } body)
  if !background && mode.last && !(← hasTraps) then run
  else
    let number ← claim
    let id ← fork evaluator do
      if background then pipeline.leaveTerminal true
      run
    if background then
      leave number [id]
      return 0
    else await [id]

/-- What a loop does next. -/
inductive Turn
  | on
  | next
  | stop
  | back (stated : Bool)
  deriving DecidableEq, Repr, Inhabited

/-- What a loop does next, as the commands in it tell. -/
def turn : Run Turn := do
  let process ← get
  let set := fun (skip : Option Skip) => modify fun process => { process with skip }
  match process.skip with
  | none => return .on
  | some (.back stated) => return .back stated
  | some (.leave count) =>
    set (if count ≤ 1 then none else some (.leave (count - 1)))
    return .stop
  | some (.again count) =>
    set (if count ≤ 1 then none else some (.again (count - 1)))
    return if count ≤ 1 then .next else .stop

/-- Repeats a body as long as a condition holds, or does not. -/
def loop (evaluator : Evaluator) (mode : Mode) (inverted : Bool) (condition body : Statement)
    (status : Nat) : Run Nat := do
  let goOn := fun (status : Nat) => evaluator (.loop mode inverted condition body status)
  let tested ← evaluator (.statement { tested := true } condition)
  match ← turn with
  | .next => goOn status
  | .stop | .back false => return status
  | .back true => return tested
  | .on =>
    if (tested = 0) = inverted then return status
    let status ← evaluator (.statement mode body)
    match ← turn with
    | .on | .next => goOn status
    | _ => return status

/-- Carries out a body for every text. -/
def each (evaluator : Evaluator) (mode : Mode) (name : String) (body : Statement) :
    List String → (status : Nat) → Run Nat
  | [], status => return status
  | text :: rest, _ => do
    assign name text
    let status ← evaluator (.statement mode body)
    match ← turn with
    | .on | .next => each evaluator mode name body rest status
    | _ => return status

/-- An action within a loop. -/
def inLoop (action : Run Nat) : Run Nat := do
  modify fun process => { process with loops := process.loops + 1 }
  let status ← action
  modify fun process => { process with loops := process.loops - 1 }
  return status

/-- Whether one of the patterns matches a text. -/
def matchesAny (evaluator : Evaluator) (text : List Char) : List Word → Run Bool
  | [] => return false
  | word :: rest => do
    let pattern ← fieldOf evaluator word
    if Wildcard.accepts (Wildcard.ofField pattern) text then return true
    matchesAny evaluator text rest

/-- The commands of the first arm that matches a text. -/
def armOf (evaluator : Evaluator) (text : List Char) :
    List (List Word × Statement) → Run Statement
  | [] => return .skip
  | (patterns, body) :: rest => do
    if ← matchesAny evaluator text patterns then return body
    armOf evaluator text rest

/-- Carries out a statement but for what comes after each of them; gives the status,
if the statement sets it, and whether a failure may end the process. -/
def perform (evaluator : Evaluator) (mode : Mode) : Statement → Run (Option Nat × Bool)
  | .skip => return (none, false)
  | .negated body => do
    let status ← evaluator (.statement { tested := true } body)
    return (some (if status = 0 then 1 else 0), false)
  | .redirected line body redirects => do
    setLine line
    let aims ← aimed evaluator redirects
    let status ← redirected evaluator aims fun _ status => do
      if status ≠ 0 then return status
      evaluator (.statement mode.inner body)
    return (some status, false)
  | .simple line assignments words redirects => do
    return (some (← simple evaluator mode line assignments words redirects), true)
  | .each line name words body => do
    setLine line
    let texts ←
      match words with
      | some words => fields evaluator words
      | none => pure (← get).arguments
    return (some (← inLoop (each evaluator mode.inner name body texts 0)), false)
  | .loop inverted condition body => do
    return (some (← inLoop (evaluator (.loop mode.inner inverted condition body 0))), false)
  | .subshell line body redirects => do
    return (some (← subshell evaluator mode false line body redirects), true)
  | .background line body => do
    match body with
    | .pipeline stages =>
      let number ← claim
      leave number (← pipeline evaluator mode true none stages)
      return (some 0, true)
    | .redirected line body redirects =>
      return (some (← subshell evaluator mode true line body redirects), true)
    | body => return (some (← subshell evaluator mode true line body []), true)
  | .pipeline stages => do
    discard claim
    return (some (← await (← pipeline evaluator mode false none stages)), true)
  | .cases line subject arms => do
    setLine line
    let text ← textOf evaluator subject
    match ← armOf evaluator text.toList arms with
    | .skip => return (some 0, false)
    | body => return (some (← evaluator (.statement mode body)), false)
  | .both first second => do
    let status ← evaluator (.statement { tested := true } first)
    if status ≠ 0 || (← get).skip.isSome then return (none, false)
    return (some (← evaluator (.statement mode second)), false)
  | .either first second => do
    let status ← evaluator (.statement { tested := true } first)
    if status = 0 || (← get).skip.isSome then return (none, false)
    return (some (← evaluator (.statement mode second)), false)
  | .sequence first second => do
    discard (evaluator (.statement mode.inner first))
    if (← get).skip.isSome then return (none, false)
    return (some (← evaluator (.statement mode second)), false)
  | .choice condition yes no => do
    let status ← evaluator (.statement { tested := true } condition)
    if (← get).skip.isSome then return (none, false)
    match if status = 0 then yes else no with
    | .skip => return (some 0, false)
    | body => return (some (← evaluator (.statement mode body)), false)
  | .define _ name body => do
    modify fun process => { process with
      functions := (name, body) :: process.functions.filter (·.1 ≠ name) }
    return (some 0, false)

/-- Carries out a statement. -/
def execute (evaluator : Evaluator) (mode : Mode) (statement : Statement) : Run Nat := do
  let (status, checks) ←
    if ← isOn 'n' then pure (none, false)
    else
      answerSignals evaluator
      let (status, checks) ← perform evaluator mode statement
      status.forM setStatus
      pure (status, checks)
  answerSignals evaluator
  if checks && !mode.tested && status.any (· ≠ 0) && (← isOn 'e') then throw .over
  if mode.last then throw .over
  return (← get).status

end StyleTokens.Shell.Run

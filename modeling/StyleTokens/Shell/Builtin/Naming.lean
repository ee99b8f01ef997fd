/-
What the names of commands stand for.

* `Run.isBuiltin`, `Run.isSpecial` — the commands of the shell itself;
* `Run.locate` — the path of a program;
* `Run.describe` — a name in words, for `type` and `command`;
* `Run.giveAlias`, `Run.unalias`, `Run.hash` — names that were given or found.
-/
import StyleTokens.Shell.Builtin.Basic
import StyleTokens.Shell.Program

namespace StyleTokens.Shell.Run

/-- The commands of the shell itself without those that are special. -/
def plainNames : List String := [
  "[", "alias", "bg", "cd", "chdir", "command", "echo", "false", "fg", "getopts", "hash", "jobs",
  "kill", "printf", "pwd", "read", "test", "true", "type", "ulimit", "umask", "unalias", "wait"]

/-- Whether a command of the shell itself is special: its failure ends the process. -/
def isSpecial (name : String) : Bool :=
  specialNames.contains name

/-- Whether a name is that of a command of the shell itself. -/
def isBuiltin (name : String) : Bool :=
  isSpecial name || plainNames.contains name

/-- The directories that are searched for programs. -/
def searchPath : Run String := do
  return (← value? "PATH").getD Program.usualPath

/-- The path of a program with a name along directories. -/
def locateIn (path name : String) : Run (Except IoCause String) := do
  let process ← get
  look fun world =>
    Program.locate world process.id process.here name (Program.directoriesOf path) .notFound

/-- The path of a program with a name, which is remembered. -/
def locate (name : String) : Run (Except IoCause String) := do
  match (← get).located.lookup name with
  | some path => return .ok path
  | none =>
    let found ← locateIn (← searchPath) name
    if let .ok path := found then
      modify fun process => { process with located := process.located ++ [(name, path)] }
    return found

/-- Whether a path is that of a file. -/
def isThere (path : String) : Run Bool := do
  let process ← get
  look fun world => (Program.find? world process.id process.here path).toOption.isSome

/-- An alias as it would be given. -/
def aliasLine (name text : String) : String :=
  name ++ "=" ++ inQuotes text ++ "\n"

/-- Tells what a name stands for; gives the status.  `path?` is where programs are
looked for, if this is not the usual path. -/
def describe (inWords : Bool) (path? : Option String) (name : String) : Run Nat := do
  let tell := fun (words plain : String) => do
    say ((if inWords then name ++ words else plain) ++ "\n")
    return 0
  let process ← get
  if keywords.contains name then return ← tell " is a shell keyword" name
  if let some text := process.aliases.lookup name then
    if inWords then return ← tell (" is an alias for " ++ text) ""
    say ("alias " ++ aliasLine name text)
    return 0
  if (process.functions.lookup name).isSome then return ← tell " is a shell function" name
  if isSpecial name then return ← tell " is a special shell builtin" name
  if isBuiltin name then return ← tell " is a shell builtin" name
  let notFound := do
    if inWords then say (name ++ ": not found\n")
    return 127
  if name.contains '/' then
    if ← isThere name then tell (" is " ++ name) name else notFound
  else
    match path?, process.located.lookup name with
    | none, some path => tell (" is a tracked alias for " ++ path) path
    | _, _ =>
      let found ←
        match path? with
        | some path => locateIn path name
        | none => locate name
      match found with
      | .ok path => tell (" is " ++ path) path
      | .error _ => notFound

/-- The command `type`. -/
def type (arguments : List String) : Run Nat := do
  let (_, names) ← letters "" arguments
  let statuses ← names.mapM (describe true none)
  return statuses.foldl (· ||| ·) 0

/-- The command `command` where nothing is carried out. -/
def describeCommand (arguments : List String) : Run Nat := do
  let (options, names) ← letters "pvV" arguments
  let has := fun (letter : Char) => options.any (·.1 = letter)
  let path? := if has 'p' then some Program.usualPath else none
  match names with
  | [] => return 0
  | name :: _ =>
    if has 'v' || has 'V' then describe (has 'V') path? name else return 0

/-! Tables of names -/

/-- The command `alias`. -/
def giveAlias (arguments : List String) : Run Nat := do
  if arguments.isEmpty then
    let entries := inBuckets 39 (← get).aliases
    entries.forM fun (name, text) => say (aliasLine name text)
    return 0
  arguments.foldlM (fun status argument => do
    let name := argument.toList.head?.toList ++ (argument.toList.drop 1).takeWhile (· ≠ '=')
    if name.length = argument.length then
      match (← get).aliases.lookup argument with
      | some text =>
        say (aliasLine argument text)
        return status
      | none =>
        discard (write 2 ("alias: " ++ argument ++ " not found\n").toList)
        return 1
    else
      let text := String.ofList (argument.toList.drop (name.length + 1))
      let name := String.ofList name
      modify fun process =>
        let isKnown := process.aliases.any (·.1 = name)
        { process with
          aliases :=
            if isKnown then process.aliases.map fun (other, old) =>
              (other, if other = name then text else old)
            else process.aliases ++ [(name, text)] }
      return status) 0

/-- The command `unalias`. -/
def unalias (arguments : List String) : Run Nat := do
  let (options, names) ← letters "a" arguments
  if !options.isEmpty then
    modify fun process => { process with aliases := [] }
    return 0
  names.foldlM (fun status name => do
    if (← get).aliases.any (·.1 = name) then
      modify fun process => { process with aliases := process.aliases.filter (·.1 ≠ name) }
      return status
    else
      discard (write 2 ("unalias: " ++ name ++ " not found\n").toList)
      return 1) 0

/-- The command `hash`. -/
def hash (arguments : List String) : Run Nat := do
  let (options, names) ← letters "r" arguments
  if !options.isEmpty then
    modify fun process => { process with located := [] }
    return 0
  if names.isEmpty then
    let entries := inBuckets 31 (← get).located
    entries.forM fun (_, path) => say (path ++ "\n")
    return 0
  names.foldlM (fun status name => do
    modify fun process => { process with located := process.located.filter (·.1 ≠ name) }
    if isBuiltin name || (← get).functions.any (·.1 = name) || name.contains '/' then return status
    match ← locate name with
    | .ok _ => return status
    | .error cause =>
      warn (name ++ ": " ++ startReason cause)
      return 1) 0

end StyleTokens.Shell.Run

/-
The programs that a shell can call, and where they are.

* `Program.table` — the programs by their names;
* `Program.directories` — where all of them are;
* `Program.find?` — the program at a path;
* `Program.locate` — the path of a name along a list of directories;
* `Program.which` — the program that tells where others are.
-/
import StyleTokens.Shell.Tool.Compare
import StyleTokens.Shell.Tool.Edit
import StyleTokens.Shell.Tool.File
import StyleTokens.Shell.Tool.Listing
import StyleTokens.Shell.Tool.Match
import StyleTokens.Shell.Tool.Path
import StyleTokens.Shell.Tool.Sort
import StyleTokens.Shell.Tool.Start
import StyleTokens.Shell.Tool.Stream
import StyleTokens.Shell.Tool.Text
import StyleTokens.Shell.Tool.Value

namespace StyleTokens.Shell

/-- What is behind the name of a program. -/
inductive Program
  | shell
  /-- Tells where programs are. -/
  | finder
  /-- A tool, with its status if it could not write. -/
  | tool (run : Tool Nat) (failed : Nat)

namespace Program

/-- The programs by their names, with their statuses if they could not write. -/
def tools : List (String × Tool Nat × Nat) := [
  ("[", Tool.test, 2), ("basename", Tool.basename, 1), ("cat", Tool.cat, 1),
  ("chmod", Tool.chmod, 1), ("cmp", Tool.cmp, 2), ("comm", Tool.comm, 1),
  ("cp", Tool.cp, 1), ("cut", Tool.cut, 1), ("diff", Tool.diff, 2), ("dirname", Tool.dirname, 1),
  ("echo", Tool.echo, 1), ("egrep", Tool.egrep, 2), ("env", Tool.env, 125), ("expand", Tool.expand, 1),
  ("expr", Tool.expr, 3), ("false", Tool.refuse, 1),
  ("fgrep", Tool.fgrep, 2), ("fold", Tool.fold, 1), ("grep", Tool.grep, 2),
  ("head", Tool.head, 1), ("join", Tool.join, 1), ("ln", Tool.ln, 1), ("ls", Tool.ls, 2),
  ("mkdir", Tool.mkdir, 1), ("mktemp", Tool.mktemp, 1), ("mv", Tool.mv, 1), ("nice", Tool.nice, 125),
  ("nl", Tool.nl, 1), ("nohup", Tool.nohup, 125), ("paste", Tool.paste, 1),
  ("printenv", Tool.printenv, 2), ("printf", Tool.printf, 1), ("pwd", Tool.pwd, 1),
  ("readlink", Tool.readlink, 1), ("realpath", Tool.realpath, 1), ("rev", Tool.rev, 1),
  ("rm", Tool.rm, 1), ("rmdir", Tool.rmdir, 1), ("sed", Tool.sed, 4), ("seq", Tool.seq, 1), ("setsid", Tool.setsid, 1),
  ("sleep", Tool.sleep, 1), ("sort", Tool.sort, 2), ("stat", Tool.stat, 1),
  ("stdbuf", Tool.stdbuf, 125), ("tac", Tool.tac, 1), ("tail", Tool.tail, 1), ("tee", Tool.tee, 1),
  ("test", Tool.test, 2), ("timeout", Tool.timeout, 125), ("touch", Tool.touch, 1),
  ("tr", Tool.tr, 1), ("true", Tool.succeed, 1), ("truncate", Tool.truncate, 1),
  ("uniq", Tool.uniq, 1), ("wc", Tool.wc, 1), ("xargs", Tool.xargs, 1), ("yes", Tool.yes, 1)]

/-- The names of the shell. -/
def shellNames : List String :=
  ["sh", "dash"]

/-- The program of a name. -/
def ofName? (name : String) : Option Program :=
  if shellNames.contains name then some .shell
  else if name = "which" then some .finder
  else (tools.lookup name).map fun (run, failed) => .tool run failed

/-- The directories that hold all programs. -/
def directories : List (List String) :=
  [["usr", "bin"], ["bin"]]

/-- The program at a place. -/
def at? (place : Place) : Option Program :=
  if directories.contains place.dropLast then place.getLast?.bind ofName? else none

/-- What is at a path: a file, or a program that is no file. -/
inductive Target
  | file (data : ByteArray) (mode : Nat)
  | program (program : Program)
  | other

/-- What is at a path. -/
def find? (world : World) (id : Nat) (here : Place) (path : String) : Except IoCause Target :=
  match world.entryAt id here true path with
  | .ok (place?, .file data) =>
    .ok (.file data ((place?.map fun place => world.modeOf place (.file data)).getD 0))
  | .ok _ => .ok .other
  | .error cause =>
    let parts := (pathOf path).text.splitOn "/"
    let names := parts.filter fun part => part ≠ "" && part ≠ "."
    match if path.startsWith "/" then at? names else none with
    | some program => .ok (.program program)
    | none => .error cause

/-- The directories of a path variable. -/
def directoriesOf (path : String) : List String :=
  path.splitOn ":"

/-- The path of a name in a directory. -/
def inDirectory (directory name : String) : String :=
  if directory = "" then name else directory ++ "/" ++ name

/-- The path of a file or program with a name, in the first of several directories that
has one; or why there is none. -/
def locate (world : World) (id : Nat) (here : Place) (name : String) :
    (directories : List String) → (cause : IoCause) → Except IoCause String
  | [], cause => .error (if name.isEmpty then .permissionDenied else cause)
  | directory :: rest, cause =>
    let path := inDirectory directory name
    match find? world id here path with
    | .ok .other => locate world id here name rest .permissionDenied
    | .ok _ => .ok path
    | .error .notFound | .error .notDirectory => locate world id here name rest cause
    | .error other => locate world id here name rest other

/-- The directories that are searched if nothing else is said. -/
def usualPath : String :=
  "/usr/local/sbin:/usr/local/bin:/usr/sbin:/usr/bin:/sbin:/bin"

/-- Whether a path is that of a program that can be started. -/
def isStartable (world : World) (id : Nat) (here : Place) (path : String) : Bool :=
  match find? world id here path with
  | .ok (.program _) => true
  | .ok (.file _ mode) => mode &&& 0o111 ≠ 0
  | _ => false

/-- Tells where programs are. -/
def which : Tool Nat := do
  let call ← read
  let (options, names) := (call.arguments.takeWhile (·.startsWith "-"),
    call.arguments.dropWhile (·.startsWith "-"))
  for option in options do
    for letter in option.toList.drop 1 do
      if letter ≠ 'a' && letter ≠ 's' && letter ≠ '-' then
        Tool.sayError ("Illegal option -" ++ String.singleton letter ++
          "\nUsage: /usr/bin/which [-as] args\n")
        Tool.stop 2
  if names.isEmpty then Tool.stop 1
  let has := fun (letter : Char) => options.any (·.toList.contains letter)
  let world ← Tool.look id
  let directories := directoriesOf ((call.environment.lookup "PATH").getD "")
  Tool.forAll names fun name => do
    let paths :=
      if name.contains '/' then [name]
      else directories.map fun directory => inDirectory (if directory = "" then "." else directory) name
    let found := paths.filter (isStartable world call.id call.here)
    let shown := if has 'a' then found else found.take 1
    if !has 's' then shown.forM Tool.sayLine
    return if found.isEmpty then 1 else 0

end Program

/-- Why a program could not be started, in words. -/
def startReason : IoCause → String
  | .notFound | .notDirectory => "not found"
  | cause => reasonOf cause

/-- The status if a program could not be started. -/
def startStatus : IoCause → Nat
  | .notFound | .notDirectory | .tooManyLinks | .nameTooLong => 127
  | _ => 126

end StyleTokens.Shell

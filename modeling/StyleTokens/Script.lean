/-
Scripts: what the commands ask of the world.

* `Request` — a single request, with the type of its reply;
* `Script` — a request and what to do with its reply, or a result;
* `Action` — a script that may fail;
* `Script.readText`, `Action.ensurePresent`, `Action.writeFile` and the like — the
  requests in the shape in which the commands make them.

Design notes: a script decides nothing about files or processes.  It is run
either on a disk that is a value (`Host`) or on the real one, and what it does is
the sequence of its requests in both cases.
-/
import StyleTokens.Duration
import StyleTokens.Path

namespace StyleTokens

/-- The two streams that a command writes to. -/
inductive Stream
  | out
  | err
  deriving DecidableEq, Repr, Inhabited

/-- A shell command and the files that take what it writes. -/
structure Job where
  command : String
  directory : Path
  limit : Duration
  outLog : Path
  errLog : Path
  deriving DecidableEq, Repr, Inhabited

/-- How a shell command ended. -/
inductive JobEnd
  /-- With an exit code, or by a signal. -/
  | exited (code : Option Int)
  /-- Stopped when its time was over. -/
  | overdue
  deriving DecidableEq, Repr, Inhabited

/-- A request to the world. -/
inductive Request
  | present (path : Path)
  | isDirectory (path : Path)
  | isFile (path : Path)
  | size (path : Path)
  | read (path : Path)
  | canonical (path : Path)
  /-- The files below a directory. -/
  | files (root : Path)
  | makeDirectories (path : Path)
  | write (path : Path) (data : ByteArray)
  /-- Writes a file that is not there yet. -/
  | create (path : Path) (data : ByteArray)
  | shell (job : Job)
  /-- The time of day, in UTC. -/
  | now
  /-- The milliseconds since some moment in the past. -/
  | uptime
  /-- The value of a name in the environment. -/
  | environment (name : String)
  | say (stream : Stream) (text : String)
  deriving Inhabited

/-- What the world replies. -/
abbrev Request.Reply : Request → Type
  | present _ | isDirectory _ | isFile _ => Bool
  | size _ => Except IoCause Nat
  | read _ => Except IoCause ByteArray
  | canonical _ => Except IoCause Path
  | files _ => Except IoCause (List (List String))
  | makeDirectories _ | write _ _ | create _ _ => Except IoCause Unit
  | shell _ => Except IoCause JobEnd
  | now => String
  | uptime => Nat
  | environment _ => Option String
  | say _ _ => Unit

/-- Requests one after another, each depending on the replies so far. -/
inductive Script (α : Type) : Type
  | done (value : α)
  | ask (request : Request) (next : request.Reply → Script α)

namespace Script

/-- A script, then the script that its result tells. -/
def andThen {α β : Type} : Script α → (α → Script β) → Script β
  | done value, next => next value
  | ask request rest, next => ask request fun reply => (rest reply).andThen next

instance : Monad Script where
  pure := done
  bind := andThen

instance {α : Type} [Inhabited α] : Inhabited (Script α) := ⟨done default⟩

/-- A single request. -/
def request (r : Request) : Script r.Reply :=
  ask r done

/-- The text of a file. -/
def readText (path : Path) : Script (Except IoCause String) := do
  match ← request (.read path) with
  | .error cause => return .error cause
  | .ok data =>
    match String.fromUTF8? data with
    | some text => return .ok text
    | none => return .error .notUtf8

/-- Writes to a stream. -/
def say (stream : Stream) (text : String) : Script Unit :=
  request (.say stream text)

end Script

/-- A script that may fail. -/
abbrev Action := ExceptT Fault Script

namespace Action

/-- A script whose failure is one of the file system. -/
def ofIo {α : Type} (script : Script (Except IoCause α)) : Action α :=
  ExceptT.mk do
    match ← script with
    | .ok value => return .ok value
    | .error cause => return .error (.io cause)

/-- The result of an action, failed or not. -/
def attempt {α : Type} (action : Action α) : Script (Except Fault α) :=
  action.run

/-- An action that goes on with the result of another one, failed or not. -/
def settle {α : Type} (action : Action α) : Action (Except Fault α) :=
  ExceptT.lift action.attempt

/-- Fails unless a path leads somewhere. -/
def ensurePresent (path : Path) : Action Unit := do
  if !(← Script.request (.present path)) then throw (.missingPath path.text)

/-- The text of a file. -/
def readText (path : Path) : Action String :=
  ofIo (Script.readText path)

/-- Makes a directory and those that lead to it. -/
def makeDirectories (path : Path) : Action Unit :=
  ofIo (Script.request (.makeDirectories path))

/-- Writes a file, making the directories that lead to it. -/
def writeFile (path : Path) (data : ByteArray) : Action Unit := do
  if let some parent := path.parent? then makeDirectories parent
  ofIo (Script.request (.write path data))

end Action

end StyleTokens

/-
The command line.

Requests of a script are answered by the real file system, streams and
environment.  Nothing is decided here.

Design notes: a program cannot start others from here, so a gate counts as one
that could not be started.
-/
import StyleTokens.Calendar
import StyleTokens.Command.Perform
import Std.Time.DateTime.Timestamp

namespace StyleTokens.CommandLine

/-- The cause of a refusal of the system. -/
def causeOf : IO.Error → IoCause
  | .noFileOrDirectory _ _ _ => .notFound
  | .alreadyExists _ _ _ => .alreadyExists
  | .inappropriateType _ code _ => if code = 21 then .isDirectory else .notDirectory
  | error => .other (toString error)

/-- An action of the system with its refusal. -/
def attempt {α : Type} (action : IO α) : IO (Except IoCause α) := do
  match ← action.toBaseIO with
  | .ok value => return .ok value
  | .error error => return .error (causeOf error)

/-- The kind of what a path leads to. -/
def kindOf (path : Path) : IO (Option IO.FS.FileType) := do
  match ← (do (← IO.FS.realPath path.text).metadata : IO _).toBaseIO with
  | .ok found => return some found.type
  | .error _ => return none

/-- The files below a directory, by the names that lead there.  Links are not
followed. -/
partial def filesBelow (names : List String) (path : String) : IO (List (List String)) := do
  let mut found := []
  for entry in ← (← IO.FS.realPath path).readDir do
    let names := names ++ [entry.fileName]
    match (← entry.path.symlinkMetadata).type with
    | .dir => found := found ++ (← filesBelow names entry.path.toString)
    | .file => found := found ++ [names]
    | _ => pure ()
  return found

/-- Writes a file that is not there yet. -/
def create (path : Path) (data : ByteArray) : IO Unit := do
  let handle ← IO.FS.Handle.mk path.text .writeNew
  handle.write data

/-- The stream of the system. -/
def streamOf : Stream → IO IO.FS.Stream
  | .out => IO.getStdout
  | .err => IO.getStderr

/-- The reply to a request. -/
def reply : (request : Request) → IO request.Reply
  | .present path => return (← kindOf path).isSome
  | .isDirectory path => do
    match ← kindOf path with
    | some .dir => return true
    | _ => return false
  | .isFile path => do
    match ← kindOf path with
    | some .file => return true
    | _ => return false
  | .size path => attempt do
    return (← (← IO.FS.realPath path.text).metadata).byteSize.toNat
  | .read path => attempt (IO.FS.readBinFile path.text)
  | .canonical path => attempt do
    let found ← IO.FS.realPath path.text
    discard found.metadata
    return ⟨found.toString⟩
  | .files root => attempt (filesBelow [] root.text)
  | .makeDirectories path => attempt (IO.FS.createDirAll path.text)
  | .write path data => attempt (IO.FS.writeBinFile path.text data)
  | .create path data => attempt (create path data)
  | .shell _ => return .error (.other "programs cannot be started from here")
  | .now => return Calendar.stamp (← Std.Time.Timestamp.now).toSecondsSinceUnixEpoch.val.toNat
  | .uptime => IO.monoMsNow
  | .environment name => IO.getEnv name
  | .say stream text => do (← streamOf stream).putStr text

/-- Runs a script. -/
def run {α : Type} : Script α → IO α
  | .done value => return value
  | .ask request next => do run (next (← reply request))

end StyleTokens.CommandLine

/-- Carries out the arguments of the program. -/
def main (arguments : List String) : IO UInt32 := do
  let code ← StyleTokens.CommandLine.run (StyleTokens.Command.session arguments)
  return UInt32.ofNat code.toNat

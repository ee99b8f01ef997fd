/-
Hosts: a world that is a value.

* `Host` — a disk, what was written to the two streams, the environment, and a
  shell given as a function;
* `Host.reply` — the reply to a request, and the host after it;
* `Host.run` — the result of a script, and the host after it;
* `Host.trace` — the hosts between the requests of a script.
-/
import StyleTokens.Disk
import StyleTokens.Script

namespace StyleTokens

/-- What a shell makes of a job: how it ends, the disk after it, and how many
milliseconds it takes. -/
structure ShellReply where
  result : Except IoCause JobEnd
  disk : Disk
  milliseconds : Nat := 0

/-- A world for scripts. -/
structure Host where
  disk : Disk
  out : String := ""
  err : String := ""
  /-- The environment, by names. -/
  environment : List (String × String) := []
  now : String := "1970-01-01T00:00:00Z"
  uptime : Nat := 0
  shell : Job → Disk → ShellReply := fun _ disk => { result := .ok .overdue, disk }

namespace Host

/-- The host after a change of its disk that may fail. -/
def change (host : Host) : Except IoCause Disk → Except IoCause Unit × Host
  | .ok disk => (return, { host with disk })
  | .error cause => (throw cause, host)

/-- The reply to a request, and the host after it. -/
def reply (host : Host) : (request : Request) → request.Reply × Host
  | .present path => (host.disk.present path, host)
  | .isDirectory path => (host.disk.isDirectory path, host)
  | .isFile path => (host.disk.isFile path, host)
  | .size path => (host.disk.size path, host)
  | .read path => (host.disk.read path, host)
  | .canonical path => (host.disk.canonical path, host)
  | .files root => (host.disk.files root, host)
  | .makeDirectories path =>
    let (result, disk) := host.disk.makeDirectories path
    (result, { host with disk })
  | .write path data => host.change (host.disk.write path data)
  | .create path data => host.change (host.disk.create path data)
  | .shell job =>
    let reply := host.shell job host.disk
    (reply.result, { host with disk := reply.disk, uptime := host.uptime + reply.milliseconds })
  | .now => (host.now, host)
  | .uptime => (host.uptime, host)
  | .environment name => (host.environment.lookup name, host)
  | .say .out text => ((), { host with out := host.out ++ text })
  | .say .err text => ((), { host with err := host.err ++ text })

/-- The result of a script, and the host after it. -/
def run {α : Type} (host : Host) : Script α → α × Host
  | .done value => (value, host)
  | .ask request next =>
    let (answer, host) := host.reply request
    host.run (next answer)

/-- The hosts that a script passes through, from the first to the last. -/
def trace {α : Type} (host : Host) : Script α → List Host
  | .done _ => [host]
  | .ask request next =>
    let (answer, after) := host.reply request
    host :: after.trace (next answer)

@[simp] theorem run_done {α : Type} (host : Host) (value : α) :
    host.run (.done value) = (value, host) := rfl

theorem run_andThen {α β : Type} (host : Host) (script : Script α) (next : α → Script β) :
    host.run (script.andThen next) = (host.run script).2.run (next (host.run script).1) := by
  induction script generalizing host with
  | done value => rfl
  | ask request rest ih => exact ih _ _

/-- The last host of the trace is the one after the run. -/
theorem getLast?_trace {α : Type} (host : Host) (script : Script α) :
    (host.trace script).getLast? = some (host.run script).2 := by
  induction script generalizing host with
  | done value => rfl
  | ask request rest ih =>
    rw [trace, List.getLast?_cons, ih, Option.getD_some]
    rfl

end Host

end StyleTokens

/-
Processes in the foreground and in the background.

* `Run.await` — the end of processes in the foreground;
* `Run.collect` — the ends of those in the background, as far as they are there;
* `Run.awaitJob` — the end of a job, unless a signal comes first;
* `Run.job?` — the job that a text such as `%1` stands for.

Design notes: a job keeps its number until its end has been told or waited for.  What
runs in the foreground is a job too and takes a number for the time, though nobody sees
it.
-/
import StyleTokens.Shell.Demand
import StyleTokens.Shell.Signal

namespace StyleTokens.Shell

namespace Job

/-- Whether some process of the job has not ended. -/
def isRunning (job : Job) : Bool :=
  job.ids.any fun id => !job.exits.any (·.1 = id)

/-- The processes of the job that have not ended. -/
def remaining (job : Job) : List Nat :=
  job.ids.filter fun id => !job.exits.any (·.1 = id)

/-- How the last process of the job ended. -/
def exit (job : Job) : Exit :=
  ((job.ids.getLast?.bind fun id => job.exits.lookup id)).getD (.status 0)

/-- The job with the end of a process. -/
def withExit (job : Job) (id : Nat) (exit : Exit) : Job :=
  { job with exits := (id, exit) :: job.exits }

end Job

namespace Run

/-- Takes a number for a job; one whose end has been waited for gives up its own. -/
def claim : Run Nat := do
  let jobs := (← get).jobs
  let isFree := fun (number : Nat) =>
    match jobs.find? (·.number = number) with
    | none => true
    | some job => !job.isRunning && job.waited
  let number := ((List.range (jobs.length + 1)).map (· + 1)).find? isFree |>.getD 1
  modify fun process => { process with jobs := jobs.filter (·.number ≠ number) }
  return number

/-- Notes ends of processes in the background that are there. -/
def collect : Run Unit := do
  let jobs := (← get).jobs
  let jobs ← update fun world =>
    jobs.foldr (fun (job : Job) (world, jobs) =>
      let (world, job) := job.ids.foldl (fun (world, (job : Job)) id =>
        match world.reap id with
        | some (world, exit) => (world, job.withExit id exit)
        | none => (world, job)) (world, job)
      (world, job :: jobs)) (world, [])
  modify fun process => { process with jobs }

/-- Tells of a process that a signal has ended. -/
def mourn (exit : Exit) : Run Unit := do
  if let some words := exit.complaint? then discard (write 2 (words ++ "\n").toList)

/-- The end of one of several processes, as soon as there is one. -/
def awaitOne (ids : List Nat) : Run (Nat × Exit) :=
  act (Act.await fun world =>
    ids.findSome? fun id => (world.reap id).map fun (world, exit) => (world, id, exit))

/-- The ends of processes; `fuel` is at least their number. -/
def awaitAll : (fuel : Nat) → List Nat → List (Nat × Exit) → Run (List (Nat × Exit))
  | 0, _, exits => return exits
  | _, [], exits => return exits
  | fuel + 1, ids, exits => do
    let (id, exit) ← awaitOne ids
    mourn exit
    awaitAll fuel (ids.filter (· ≠ id)) ((id, exit) :: exits)

/-- The status of processes in the foreground, the last of which counts. -/
def await (ids : List Nat) : Run Nat := do
  let exits ← awaitAll ids.length ids []
  collect
  return ((ids.getLast?.bind fun id => exits.lookup id).map Exit.code).getD 0

/-- Notes processes that run in the background. -/
def leave (number : Nat) (ids : List Nat) : Run Unit :=
  modify fun process => { process with
    background := ids.getLast?.or process.background
    jobs := { number, ids } :: process.jobs }

/-- Changes a job. -/
def changeJob (number : Nat) (change : Job → Job) : Run Unit :=
  modify fun process => { process with
    jobs := process.jobs.map fun job => if job.number = number then change job else job }

/-- The job of a number. -/
def jobOf? (number : Nat) : Run (Option Job) := do
  return (← get).jobs.find? (·.number = number)

/-- What happens while a job is waited for. -/
inductive Event
  | ended (id : Nat) (exit : Exit)
  | called (signal : Nat)
  deriving Inhabited

/-- The next event while processes are waited for. -/
def event (ids : List Nat) : Run Event := do
  let self := (← get).id
  act (Act.await fun world =>
    match ids.findSome? fun id => (world.reap id).map fun (world, exit) => (world, id, exit) with
    | some (world, id, exit) => some (world, .ended id exit)
    | none =>
      ((world.member? self).bind (·.pending.head?)).map fun signal => (world, .called signal))

/-- Waits for the end of a job; gives the signal that came before it, if one did.
`fuel` is at least the number of its processes. -/
def awaitJob : (fuel : Nat) → (number : Nat) → Run (Option Nat)
  | 0, _ => return none
  | fuel + 1, number => do
    match ← jobOf? number with
    | none => return none
    | some job =>
      if !job.isRunning then return none
      match ← event job.remaining with
      | .called signal => return some signal
      | .ended id exit =>
        mourn exit
        changeJob number (·.withExit id exit)
        awaitJob fuel number

/-- Waits until all jobs have ended; gives the signal that came before that, if one
did.  `fuel` is at least the number of all their processes. -/
def awaitJobs : (fuel : Nat) → Run (Option Nat)
  | 0 => return none
  | fuel + 1 => do
    let jobs := (← get).jobs
    match jobs.flatMap Job.remaining with
    | [] =>
      modify fun process => { process with
        jobs := process.jobs.map fun job => { job with waited := true } }
      return none
    | ids =>
      match ← event ids with
      | .called signal => return some signal
      | .ended id exit =>
        if let some job := jobs.find? (·.ids.contains id) then
          changeJob job.number (·.withExit id exit)
        awaitJobs fuel

/-- The job that a text with a percent sign stands for; `text` is as it is written. -/
def findJob (text : String) : Run Job := do
  let jobs := (← get).jobs
  let known := fun (job? : Option Job) (problem : String) =>
    match job? with
    | some job => return job
    | none => fail problem
  let noJob := "No such job: " ++ text
  match text.toList.drop 1 with
  | [] | ['+'] | ['%'] => known jobs.head? "No current job"
  | ['-'] => known (jobs.drop 1).head? "No previous job"
  | '?' :: wanted => byCommand jobs wanted.isEmpty noJob
  | name =>
    if name.all Char.isDigit then
      known (jobs.find? fun job => some job.number = (String.ofList name).toNat?) noJob
    else fail noJob
where
  /-- The only job; none has a text of its own. -/
  byCommand (jobs : List Job) (matchesAll : Bool) (noJob : String) : Run Job :=
    match jobs, matchesAll with
    | [job], true => return job
    | _, _ => fail noJob

end Run

end StyleTokens.Shell

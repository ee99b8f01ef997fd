/-
What a shell is asked to do.

* `Mode` — how a statement is carried out;
* `Demand` — a piece of work, which may lead to others;
* `Evaluator` — what does such work;
* `Run.lifetime` — all that a process does, up to its end;
* `Run.fork` — a process that comes from another one.

Design notes: statements contain others, and loops repeat themselves, so the work is
bounded by fuel.  All of it goes through one function, the evaluator; whatever needs
it, such as the expansion of words, gets an evaluator with less fuel.
-/
import StyleTokens.Shell.Process

namespace StyleTokens.Shell

/-- How a statement is carried out. -/
structure Mode where
  /-- Whether its status is asked for, so that it may fail. -/
  tested : Bool := false
  /-- Whether the process has nothing to do after it. -/
  last : Bool := false
  deriving DecidableEq, Repr, Inhabited

/-- The mode in which the parts of a statement are carried out that are not its end. -/
def Mode.inner (mode : Mode) : Mode :=
  { mode with last := false }

/-- A piece of work. -/
inductive Demand
  | statement (mode : Mode) (statement : Statement)
  /-- Repeats a body as long as a condition holds, or does not; the status is that of
  the last time. -/
  | loop (mode : Mode) (inverted : Bool) (condition body : Statement) (status : Nat)
  /-- Carries out a script; a file is left by what leaves functions. -/
  | script (mode : Mode) (isFile : Bool) (source : Source) (status : Nat)
  /-- Puts the program at a path in the place of the process, if this is possible. -/
  | launch (path : String) (environment : List (String × String)) (arguments : List String)
  deriving Inhabited

/-- What comes of a piece of work: a status, or why a program could not be started. -/
abbrev Demand.Reply : Demand → Type
  | launch .. => IoCause
  | statement .. | loop .. | script .. => Nat

/-- What does the work. -/
abbrev Evaluator := (demand : Demand) → Run demand.Reply

namespace Run

/-- Carries out a text, from its first line on. -/
def text (evaluator : Evaluator) (mode : Mode) (text : String) : Run Nat := do
  evaluator (.script mode false { rest := text.toList, aliases := (← get).aliases } 0)

/-- What is left of an action for a signal when the process ends. -/
def settle (halt : Option Halt) : Run Unit :=
  modify fun process =>
    let counts := halt = some .exit || process.skip = some (.back false)
    { process with
      status := if counts then process.held.getD process.status else process.status
      held := none, skip := none, loops := 0 }

/-- All that a process does, up to its end; gives the status of the process. -/
def lifetime (evaluator : Evaluator) (action : Run Nat) : Run Nat := do
  match ← attempt action with
  | .ok _ => pure ()
  | .error halt => settle (some halt)
  if let some commands := (← get).traps.lookup 0 then
    modify fun process => { process with
      traps := process.traps.filter (·.1 ≠ 0), skip := none, held := some process.status }
    match ← attempt (text evaluator {} commands) with
    | .ok _ =>
      modify fun process => { process with skip := some (.back false) }
      settle none
    | .error halt => settle (some halt)
  return (← get).status

/-- What a process becomes that comes from another one. -/
def childOf (process : Process) (id : Nat) : Process :=
  { process with
    id, traps := process.traps.filter (·.2.isEmpty), jobs := [], collected := [], broken := false }

/-- Starts a process that carries out an action; gives its number. -/
def fork (evaluator : Evaluator) (action : Run Nat) : Run Nat := do
  let process ← get
  act (Act.fork fun id =>
    let life := (lifetime evaluator action).run.run (childOf process id)
    Act.toTask do
      let (result, process) ← life
      match result with
      | .ok status => return status
      | .error _ => return process.status)

/-- Commands for signals that have come, one after another; `skip` puts them off. -/
def answer (evaluator : Evaluator) : (fuel : Nat) → Run Unit
  | 0 => return
  | fuel + 1 => do
    let process ← get
    if process.skip.isSome then return
    let next ← update fun world =>
      match (world.member? process.id).map (·.pending.mergeSort) with
      | some (signal :: others) =>
        let pending := others.filter (· ≠ signal)
        (world.changeMember process.id fun member => { member with pending }, some signal)
      | _ => (world, none)
    match next.bind fun signal => process.traps.lookup signal with
    | none => if next.isSome then answer evaluator fuel
    | some commands =>
      modify fun process => { process with held := process.held.or (some process.status) }
      let held := (← get).held
      discard (text evaluator {} commands)
      modify fun after => { after with
        status := if after.skip = some (.back true) then after.status else held.getD after.status
        held := process.held }
      answer evaluator fuel

/-- Signals that may come at once. -/
def signalLimit : Nat := 1000

end Run

end StyleTokens.Shell

/-
The machine that carries out tasks.

* `Machine` — the world and the tasks of its processes;
* `Machine.turn` — the next step of the process whose turn it is;
* `Machine.run` — steps until a process has ended or time is over;
* `Machine.rest` — steps until all processes wait or have ended.

Design notes: a process goes on until it has to wait or its slice is over, and then
the others have their turn.  Time passes when all processes wait, up to the moment at
which the first of them goes on, and by a millisecond for so many steps.
-/
import StyleTokens.Shell.Task

namespace StyleTokens.Shell

/-- The world and the tasks of its processes. -/
structure Machine where
  world : World
  /-- Tasks that may be able to go on, in the order of their turns. -/
  ready : List (Nat × Task)
  /-- Tasks that have to wait until something happens. -/
  waiting : List (Nat × Task) := []
  /-- Steps since the first process had its turn. -/
  slice : Nat := 0
  /-- Steps since time passed. -/
  steps : Nat := 0
  deriving Inhabited

namespace Machine

/-- Steps that take a millisecond. -/
def stepsPerMillisecond : Nat := 1000

/-- Steps after which another process has its turn. -/
def sliceLimit : Nat := 5000

/-- The machine after something happened, with the time that a step takes. -/
def moved (machine : Machine) (world : World) (ready : List (Nat × Task)) : Machine :=
  let late := machine.steps + 1 ≥ stepsPerMillisecond
  { world := if late then { world with clock := world.clock + 1 } else world
    ready := ready ++ machine.waiting
    slice := machine.slice + 1
    steps := if late then 0 else machine.steps + 1 }

/-- The next step; none if all processes wait. -/
def turn (machine : Machine) : Option Machine :=
  match machine.ready with
  | [] => none
  | (id, task) :: others =>
    let stopped := ((machine.world.member? id).map (·.stopped)).getD false
    if !machine.world.isAlive id then some { machine with ready := others, slice := 0 }
    else if stopped then
      some { machine with ready := others, waiting := (id, task) :: machine.waiting, slice := 0 }
    else
      match task with
      | .over exit =>
        some { machine.moved (machine.world.finish id exit) others with slice := 0 }
      | .fork child next =>
        let (world, number) := machine.world.join id
        some (machine.moved world ((id, next number) :: others ++ [(number, child number)]))
      | .step next =>
        match next machine.world with
        | none =>
          some { machine with ready := others, waiting := machine.waiting ++ [(id, task)], slice := 0 }
        | some (world, task) =>
          if machine.slice < sliceLimit then some (machine.moved world ((id, task) :: others))
          else
            let after := machine.moved world others
            some { after with ready := after.ready ++ [(id, task)], slice := 0 }

/-- When the first of the processes goes on that sleep. -/
def wake? (machine : Machine) : Option Nat :=
  (machine.world.members.filterMap fun member =>
    if member.exit.isNone && !member.stopped then member.wake else none).min?

/-- The machine at a later time, when all processes may look whether they go on. -/
def at_ (machine : Machine) (time : Nat) : Machine :=
  { machine with
    world := { machine.world with clock := max machine.world.clock time }
    ready := machine.ready ++ machine.waiting, waiting := [], slice := 0 }

/-- Steps until a process has ended, and how it did, or until the time is over; when
the steps are used up, the time counts as over. -/
def run (main limit : Nat) : (fuel : Nat) → Machine → Machine × Option Exit
  | 0, machine => (machine.at_ limit, none)
  | fuel + 1, machine =>
    match (machine.world.member? main).bind (·.exit) with
    | some exit => (machine, some exit)
    | none =>
      if limit ≤ machine.world.clock then (machine, none)
      else
        match machine.turn with
        | some machine => run main limit fuel machine
        | none =>
          match machine.wake? with
          | some time => run main limit fuel (machine.at_ (min time limit))
          | none => (machine.at_ limit, none)

/-- Steps until all processes wait or have ended. -/
def rest : (fuel : Nat) → Machine → Machine
  | 0, machine => machine
  | fuel + 1, machine =>
    match machine.turn with
    | some machine => rest fuel machine
    | none => machine

/-- Sends a signal to all processes. -/
def signalAll (number : Nat) (machine : Machine) : Machine :=
  let world := machine.world.members.foldl (fun world member => world.signal member.id number)
    machine.world
  { machine with world, ready := machine.ready ++ machine.waiting, waiting := [] }

end Machine

end StyleTokens.Shell

/-
What processes do, step by step.

* `Task` — the steps that a process will take;
* `Act` — a part of a task that has a result;
* `Act.update`, `Act.await` — a step in the world, done at once or when it can be;
* `Act.fork` — a second process;
* `Act.read`, `Act.write`, `Act.sleep`, `Act.wait` and the like — single steps.

Design notes: an act is given what follows it, so that a task is always at the point
of a single next step, whatever functions it came from.
-/
import StyleTokens.Shell.World

namespace StyleTokens.Shell

/-- The steps that a process will take. -/
inductive Task
  | over (exit : Exit)
  /-- A step; there is none as long as the process has to wait. -/
  | step (next : World → Option (World × Task))
  /-- A second process, and what this one does then; both get the number of the new
  one. -/
  | fork (child next : Nat → Task)

instance : Inhabited Task := ⟨.over (.status 0)⟩

/-- A part of a task that has a result: what it does, given what follows. -/
def Act (α : Type) : Type :=
  (α → Task) → Task

instance : Monad Act where
  pure value := fun next => next value
  bind act rest := fun next => act fun value => rest value next

instance {α : Type} : Inhabited (Act α) := ⟨fun _ => default⟩

namespace Act

/-- A change of the world. -/
def update {α : Type} (change : World → World × α) : Act α := fun next =>
  .step fun world =>
    let (world, value) := change world
    some (world, next value)

/-- A change of the world, as soon as there is one. -/
def await {α : Type} (change : World → Option (World × α)) : Act α := fun next =>
  .step fun world => (change world).map fun (world, value) => (world, next value)

/-- A view of the world. -/
def look {α : Type} (view : World → α) : Act α :=
  update fun world => (world, view world)

/-- A change of the world without a result. -/
def alter (change : World → World) : Act Unit :=
  update fun world => (change world, ())

/-- Lets others go on. -/
def yield : Act Unit :=
  alter id

/-- Starts a second process. -/
def fork (child : Nat → Task) : Act Nat := fun next =>
  .fork child next

/-- Reads at most so many bytes of a stream. -/
def read (id stream limit : Nat) : Act (Except IoCause ByteArray) :=
  await fun world => world.read id stream limit

/-- Writes bytes to a stream. -/
def write (id stream : Nat) (data : ByteArray) : Act (Except IoCause Unit) :=
  await fun world => world.write id stream data

/-- Bytes that are read at a time. -/
def portion : Nat := 65536

/-- Whether a stream gives bytes without an end. -/
def isEndless (world : World) (id stream : Nat) : Bool :=
  match world.stream? id stream with
  | some (_, file) => file.target = .device .zero || file.target = .device .full
  | none => false

/-- Reads all of a stream, portion by portion; `fuel` bounds their number.  A stream
without an end is read for ever. -/
def readAll (id stream : Nat) : (fuel : Nat) → (before : ByteArray) → Act (Except IoCause ByteArray)
  | 0, before => pure (.ok before)
  | fuel + 1, before => do
    if ← look fun world => isEndless world id stream then await fun _ => none
    match ← read id stream portion with
    | .error cause => return .error cause
    | .ok data =>
      if data.size = 0 then return .ok before
      readAll id stream fuel (before ++ data)

/-- Portions of which no text that is read has more. -/
def portionLimit : Nat := 100000

/-- Waits until milliseconds have gone by. -/
def sleep (id milliseconds : Nat) : Act Unit := do
  let wake ← update fun world =>
    let wake := world.clock + milliseconds
    (world.changeMember id fun member => { member with wake := some wake }, wake)
  await fun world =>
    if wake ≤ world.clock then
      some (world.changeMember id fun member => { member with wake := none }, ())
    else none

/-- Waits for the end of a process. -/
def wait (child : Nat) : Act Exit :=
  await fun world => world.reap child

/-- Waits for the end of a process, but not past a time. -/
def waitUntil (id child time : Nat) : Act (Option Exit) := do
  alter fun world => world.changeMember id fun member => { member with wake := some time }
  await fun world =>
    let awake := world.changeMember id fun member => { member with wake := none }
    match awake.reap child with
    | some (world, exit) => some (world, some exit)
    | none => if time ≤ world.clock then some (awake, none) else none

/-- Opens what a path leads to, and makes a stream lead to it. -/
def openAs (id : Nat) (here : Place) (stream : Nat) (path : String) (how : Opening) :
    Act (Except IoCause Unit) :=
  update fun world =>
    match world.openPath id here path how with
    | (world, .error cause) => (world, .error cause)
    | (world, .ok number) => (world.connect id stream number, .ok ())

/-- Closes a stream. -/
def close (id stream : Nat) : Act Unit :=
  alter fun world => world.close id stream

/-- Makes a stream lead where another one leads. -/
def duplicate (id source goal : Nat) : Act (Except IoCause Unit) :=
  update fun world =>
    match world.stream? id source with
    | some (number, _) => (world.connect id goal number, .ok ())
    | none => (world, .error .badStream)

/-- Ends the process. -/
def finish {α : Type} (exit : Exit) : Act α := fun _ => .over exit

/-- A task of an act whose result is a status. -/
def toTask (act : Act Nat) : Task :=
  act fun status => .over (.status (status % 256))

end Act

end StyleTokens.Shell

/-
What processes share, and what of each of them the others see.

* `OpenFile` — a file, a device or a pipe as it was opened;
* `Member` — a process as the others see it: its open streams, its end, its signals;
* `World` — the disk, the open files, the pipes, the members and the time;
* `World.openPath`, `World.read`, `World.write` — streams;
* `World.unlink`, `World.rename`, `World.twin` — names of files;
* `World.signal`, `World.finish` — ends of processes.

Design notes: a stream is a number that leads to an open file, which several streams
of several processes may share.  What cannot be done yet has the result `none`: a
read from an empty pipe waits for those that can write to it, and a write to a full
one for those that can read from it.
-/
import StyleTokens.Disk
import StyleTokens.Text.Utf8

namespace StyleTokens.Shell

/-- What an open file leads to. -/
inductive Target
  | device (device : Device)
  | file (place : Place)
  | directory (place : Place)
  /-- A file that has lost its name. -/
  | nameless (number : Nat)
  | pipe (number : Nat)
  deriving DecidableEq, Repr, Inhabited

/-- A file as it was opened. -/
structure OpenFile where
  target : Target
  /-- Where reading and writing go on. -/
  offset : Nat := 0
  reads : Bool := false
  writes : Bool := false
  /-- Whether all is written behind the end. -/
  appends : Bool := false
  deriving DecidableEq, Repr, Inhabited

/-- How a file is opened. -/
structure Opening where
  reads : Bool := false
  writes : Bool := false
  /-- Whether a file is made where there is none. -/
  creates : Bool := false
  /-- Whether the file is emptied. -/
  empties : Bool := false
  appends : Bool := false
  /-- Whether the file must not be there yet. -/
  exclusive : Bool := false
  /-- Permissions that a new file does not get. -/
  mask : Nat := 0o022
  deriving DecidableEq, Repr, Inhabited

/-- How a process ended. -/
inductive Exit
  | status (code : Nat)
  | signal (number : Nat)
  deriving DecidableEq, Repr, Inhabited

/-- A process as the others see it. -/
structure Member where
  id : Nat
  parent : Nat
  /-- The open files of the streams. -/
  streams : List (Nat × Nat) := []
  exit : Option Exit := none
  ignored : List Nat := []
  caught : List Nat := []
  /-- Caught signals that were not answered yet. -/
  pending : List Nat := []
  /-- When the process goes on, if it sleeps. -/
  wake : Option Nat := none
  stopped : Bool := false
  deriving Repr, Inhabited

/-- What is known of a file besides its data. -/
structure Traits where
  mode : Option Nat := none
  /-- The number of the change that was the last. -/
  changed : Nat := 0
  /-- The number of the file, if it has several names. -/
  twin : Nat := 0
  deriving DecidableEq, Repr, Inhabited

/-- What processes share. -/
structure World where
  disk : Disk
  traits : List (Place × Traits) := []
  nameless : List (Nat × ByteArray) := []
  pipes : List (Nat × ByteArray) := []
  files : List (Nat × OpenFile) := []
  members : List Member := []
  /-- The number of the next open file, pipe, nameless file or change. -/
  fresh : Nat := 1
  /-- The number of the next process. -/
  nextId : Nat := 1001
  /-- Milliseconds since the start. -/
  clock : Nat := 0
  deriving Inhabited

/-- Bytes that a pipe takes before it is full. -/
def pipeLimit : Nat := 65536

/-- Streams from this number on are kept by a shell for itself. -/
def keptStreams : Nat := 1000

/-- The signals that do not end a process. -/
def harmlessSignals : List Nat := [17, 18, 23, 28]

/-- The signals that stop a process. -/
def stoppingSignals : List Nat := [19, 20, 21, 22]

/-- A refusal of the file system in words. -/
def reasonOf (cause : IoCause) : String :=
  ((cause.message.splitOn " (os error ").head?).getD ""

/-- The path of an octet text. -/
def pathOf (octets : String) : Path :=
  ⟨Octets.toText octets⟩

/-- The stream that a path stands for, if it is one of those that stand for streams. -/
def streamPath? (path : String) : Option Nat :=
  match path with
  | "/dev/stdin" => some 0
  | "/dev/stdout" => some 1
  | "/dev/stderr" => some 2
  | _ =>
    ["/dev/fd/", "/proc/self/fd/"].findSome? fun start =>
      if path.startsWith start then (String.ofList (path.toList.drop start.length)).toNat? else none

namespace World

/-- The disk as seen from a directory. -/
def diskFrom (world : World) (here : Place) : Disk :=
  { world.disk with here }

/-! Members -/

/-- The member of a number. -/
def member? (world : World) (id : Nat) : Option Member :=
  world.members.find? (·.id = id)

/-- Whether a process is there and has not ended. -/
def isAlive (world : World) (id : Nat) : Bool :=
  match world.member? id with
  | some member => member.exit.isNone
  | none => false

/-- The world with a member changed. -/
def changeMember (world : World) (id : Nat) (change : Member → Member) : World :=
  { world with
    members := world.members.map fun member => if member.id = id then change member else member }

/-- A new member like its parent, and the world with it. -/
def join (world : World) (parent : Nat) : World × Nat :=
  let id := world.nextId
  let like := (world.member? parent).getD { id := parent, parent := 0 }
  let member : Member := { id, parent, streams := like.streams, ignored := like.ignored }
  ({ world with members := member :: world.members, nextId := id + 1 }, id)

/-- The end of a process, and the world without it, once it has ended. -/
def reap (world : World) (id : Nat) : Option (World × Exit) := do
  let exit ← (← world.member? id).exit
  return ({ world with members := world.members.filter (·.id ≠ id) }, exit)

/-- The end of a process. -/
def finish (world : World) (id : Nat) (exit : Exit) : World :=
  match world.member? id with
  | none => world
  | some member =>
    let world := world.changeMember id fun member =>
      { member with exit := some exit, streams := [], pending := [], wake := none }
    world.changeMember member.parent fun parent =>
      if parent.caught.contains 17 then { parent with pending := parent.pending ++ [17] }
      else parent

/-- Sends a signal to a process. -/
def signal (world : World) (id number : Nat) : World :=
  match world.member? id with
  | none => world
  | some member =>
    if member.exit.isSome || number = 0 then world
    else if number = 9 then world.finish id (.signal 9)
    else if number = 18 then world.changeMember id fun member => { member with stopped := false }
    else if number = 19 then world.changeMember id fun member => { member with stopped := true }
    else if member.ignored.contains number then world
    else if member.caught.contains number then
      world.changeMember id fun member => { member with pending := member.pending ++ [number] }
    else if harmlessSignals.contains number then world
    else if stoppingSignals.contains number then
      world.changeMember id fun member => { member with stopped := true }
    else world.finish id (.signal number)

/-! Files by their places -/

/-- The traits of a place. -/
def traitsOf (world : World) (place : Place) : Traits :=
  (world.traits.lookup place).getD {}

/-- The world with the traits of a place changed. -/
def changeTraits (world : World) (place : Place) (change : Traits → Traits) : World :=
  let traits := change (world.traitsOf place)
  { world with traits := (place, traits) :: world.traits.filter (·.1 ≠ place) }

/-- All names of the file at a place. -/
def names (world : World) (place : Place) : List Place :=
  let twin := (world.traitsOf place).twin
  if twin = 0 then [place]
  else place :: ((world.traits.filter fun (other, traits) =>
    traits.twin = twin && other ≠ place).map (·.1))

/-- The permissions of what is at a place. -/
def modeOf (world : World) (place : Place) (entry : Entry) : Nat :=
  match (world.traitsOf place).mode with
  | some mode => mode
  | none =>
    match entry with
    | .file _ => 0o644
    | .directory => 0o755
    | .device _ => 0o666
    | .link _ => 0o777

/-- The world with a change at a place noted. -/
def note (world : World) (place : Place) : World :=
  { world.changeTraits place fun traits => { traits with changed := world.fresh } with
    fresh := world.fresh + 1 }

/-- The world with the permissions of a place set. -/
def setMode (world : World) (place : Place) (mode : Nat) : World :=
  world.changeTraits place fun traits => { traits with mode := some mode }

/-- The world with something new at a place. -/
def put (world : World) (place : Place) (entry : Entry) : World :=
  { world with disk := world.disk.set place entry }.note place

/-- The world with other data in the file at a place, under all its names. -/
def setData (world : World) (place : Place) (data : ByteArray) : World :=
  (world.names place).foldl (fun world name => world.put name (.file data)) world

/-- The data of a file. -/
def data? (world : World) : Target → Option ByteArray
  | .file place =>
    match world.disk.entry? place with
    | some (.file data) => some data
    | _ => none
  | .nameless number => world.nameless.lookup number
  | _ => none

/-- The world with other data in an open file. -/
def setTarget (world : World) (target : Target) (data : ByteArray) : World :=
  match target with
  | .file place => world.setData place data
  | .nameless number =>
    { world with nameless := (number, data) :: world.nameless.filter (·.1 ≠ number) }
  | _ => world

/-- The world with other targets of open files. -/
def retarget (world : World) (change : Target → Target) : World :=
  { world with
    files := world.files.map fun (number, file) =>
      (number, { file with target := change file.target }) }

/-- The world without what is at a place.  A file that is open stays, by another name
or without one. -/
def unlink (world : World) (place : Place) : World :=
  let others := (world.names place).filter (· ≠ place)
  let world :=
    if world.files.any fun (_, file) => file.target = .file place then
      match others, world.data? (.file place) with
      | other :: _, _ =>
        world.retarget fun target => if target = .file place then .file other else target
      | [], some data =>
        let number := world.fresh
        let world := world.retarget fun target =>
          if target = .file place then .nameless number else target
        { world with nameless := (number, data) :: world.nameless, fresh := number + 1 }
      | [], none => world
    else world
  { world with
    disk := { world.disk with entries := world.disk.entries.filter (·.1 ≠ place) }
    traits := world.traits.filter (·.1 ≠ place) }

/-- The world without what is at and below a place. -/
def unlinkAll (world : World) (place : Place) : World :=
  let places := (world.disk.entries.map (·.1)).filter place.isPrefixOf
  places.foldl unlink world

/-- The world with all that was at and below a place at and below another one. -/
def rename (world : World) (source goal : Place) : World :=
  if source = goal then world
  else
    let world := world.unlinkAll goal
    let moved := fun (place : Place) =>
      if source.isPrefixOf place then goal ++ place.drop source.length else place
    let world := world.retarget fun
      | .file place => .file (moved place)
      | .directory place => .directory (moved place)
      | target => target
    { world with
      disk := { world.disk with
        entries := world.disk.entries.map fun (place, entry) => (moved place, entry) }
      traits := world.traits.map fun (place, traits) => (moved place, traits) }

/-- The world with a second name for the file at a place. -/
def twin (world : World) (place goal : Place) : World :=
  match world.disk.entry? place with
  | none => world
  | some entry =>
    let number := world.fresh
    let traits := world.traitsOf place
    let traits := if traits.twin = 0 then { traits with twin := number } else traits
    let world := world.changeTraits place fun _ => traits
    { world.changeTraits goal fun _ => traits with
      disk := world.disk.set goal entry, fresh := number + 1 }

/-- The world with a change of the disk; files that are gone lose their names. -/
def edit (world : World) (here : Place) (change : Disk → Except IoCause Disk) :
    World × Except IoCause Unit :=
  match change (world.diskFrom here) with
  | .ok disk => ({ world with disk := { disk with here := world.disk.here } }, .ok ())
  | .error cause => (world, .error cause)

/-! Streams -/

/-- The open file of a stream, with its number. -/
def stream? (world : World) (id stream : Nat) : Option (Nat × OpenFile) := do
  let number ← (← world.member? id).streams.lookup stream
  return (number, ← world.files.lookup number)

/-- The world with an open file changed. -/
def setFile (world : World) (number : Nat) (file : OpenFile) : World :=
  { world with files := (number, file) :: world.files.filter (·.1 ≠ number) }

/-- A new open file, and the world with it. -/
def addFile (world : World) (file : OpenFile) : World × Nat :=
  ({ world with files := (world.fresh, file) :: world.files, fresh := world.fresh + 1 },
    world.fresh)

/-- Makes a stream lead to an open file. -/
def connect (world : World) (id stream number : Nat) : World :=
  world.changeMember id fun member =>
    { member with streams := (stream, number) :: member.streams.filter (·.1 ≠ stream) }

/-- Closes a stream. -/
def close (world : World) (id stream : Nat) : World :=
  let world := world.changeMember id fun member =>
    { member with streams := member.streams.filter (·.1 ≠ stream) }
  let used := world.members.flatMap fun member => member.streams.map (·.2)
  { world with files := world.files.filter fun (number, _) => used.contains number }

/-- The lowest stream that is free, from a number on. -/
def freeStream (world : World) (id start : Nat) : Nat :=
  let used := ((world.member? id).map fun member => member.streams.map (·.1)).getD []
  let free := (List.range (used.length + 1)).find? fun n => !used.contains (start + n)
  start + free.getD 0

/-- Opens what a path leads to. -/
def openPath (world : World) (id : Nat) (here : Place) (path : String) (how : Opening) :
    World × Except IoCause Nat :=
  let opened := fun (world : World) (target : Target) =>
    let (world, number) := world.addFile {
      target, reads := how.reads, writes := how.writes, appends := how.appends }
    (world, Except.ok number)
  match streamPath? path with
  | some stream =>
    match world.stream? id stream with
    | none => (world, .error .notFound)
    | some (_, file) =>
      let world := if how.empties then world.setTarget file.target .empty else world
      opened world file.target
  | none =>
    let disk := world.diskFrom here
    let found :=
      if how.creates then disk.target (!how.exclusive) (pathOf path)
      else disk.find true (pathOf path)
    match found with
    | .error cause => (world, .error cause)
    | .ok (.absent parent name) =>
      if how.creates then
        let place := parent ++ [name]
        let world := world.put place (.file .empty)
        let world :=
          if how.mask = 0o022 then world else world.setMode place (0o666 &&& (0o777 ^^^ how.mask))
        opened world (.file place)
      else (world, .error .notFound)
    | .ok (.at place entry) =>
      if how.exclusive then (world, .error .alreadyExists)
      else
        match entry with
        | .directory =>
          if how.writes then (world, .error .isDirectory) else opened world (.directory place)
        | .device device => opened world (.device device)
        | .file _ =>
          let world := if how.empties then world.setData place .empty else world
          opened world (.file place)
        | .link _ => (world, .error .tooManyLinks)

/-- Opens a pipe: the open files at its two ends, first the one to read from. -/
def openPipe (world : World) : World × Nat × Nat :=
  let target := Target.pipe world.fresh
  let world := { world with
    pipes := (world.fresh, .empty) :: world.pipes, fresh := world.fresh + 1 }
  let (world, first) := world.addFile { target, reads := true }
  let (world, second) := world.addFile { target, writes := true }
  (world, first, second)

/-- Whether some process can use an end of a pipe. -/
def isHeld (world : World) (target : Target) (reads : Bool) : Bool :=
  world.members.any fun member =>
    member.streams.any fun (_, number) =>
      match world.files.lookup number with
      | some file => file.target = target && (if reads then file.reads else file.writes)
      | none => false

/-- Bytes that are read of a device at a time. -/
def zeros (limit : Nat) : ByteArray :=
  ⟨(List.replicate (min limit 4096) 0).toArray⟩

/-- Reads at most so many bytes of a stream; no bytes mean that there are no more. -/
def read (world : World) (id stream limit : Nat) : Option (World × Except IoCause ByteArray) :=
  match world.stream? id stream with
  | none => some (world, .error .badStream)
  | some (number, file) =>
    if !file.reads then some (world, .error .badStream)
    else
      match file.target with
      | .directory _ => some (world, .error .isDirectory)
      | .device .null => some (world, .ok .empty)
      | .device _ => some (world, .ok (zeros limit))
      | .pipe pipe =>
        let data := (world.pipes.lookup pipe).getD .empty
        if data.size = 0 then
          if world.isHeld file.target false then none else some (world, .ok .empty)
        else
          let rest := data.extract limit data.size
          let pipes := (pipe, rest) :: world.pipes.filter (·.1 ≠ pipe)
          some ({ world with pipes }, .ok (data.extract 0 limit))
      | target =>
        let data := (world.data? target).getD .empty
        let part := data.extract file.offset (file.offset + limit)
        some (world.setFile number { file with offset := file.offset + part.size }, .ok part)

/-- Bytes with others in place of those from an offset on. -/
def overwritten (old : ByteArray) (offset : Nat) (data : ByteArray) : ByteArray :=
  if offset = old.size then old ++ data
  else
    let gap : List UInt8 := List.replicate (offset - old.size) 0
    old.extract 0 offset ++ ⟨gap.toArray⟩ ++ data ++ old.extract (offset + data.size) old.size

/-- Writes bytes to a stream.  A pipe from which nobody can read kills the writer. -/
def write (world : World) (id stream : Nat) (data : ByteArray) :
    Option (World × Except IoCause Unit) :=
  match world.stream? id stream with
  | none => some (world, .error .badStream)
  | some (number, file) =>
    if !file.writes then some (world, .error .badStream)
    else
      match file.target with
      | .directory _ => some (world, .error .badStream)
      | .device .full =>
        some (world, if data.size = 0 then .ok () else .error .noSpace)
      | .device _ => some (world, .ok ())
      | .pipe pipe =>
        if !world.isHeld file.target true then
          some (world.signal id 13, .error .noReader)
        else
          let old := (world.pipes.lookup pipe).getD .empty
          if old.size ≥ pipeLimit then none
          else
            let pipes := (pipe, old ++ data) :: world.pipes.filter (·.1 ≠ pipe)
            some ({ world with pipes }, .ok ())
      | target =>
        let old := (world.data? target).getD .empty
        let offset := if file.appends then old.size else file.offset
        let world := if data.size = 0 then world
          else world.setTarget target (overwritten old offset data)
        some (world.setFile number { file with offset := offset + data.size }, .ok ())

/-- What a path leads to. -/
def entryAt (world : World) (id : Nat) (here : Place) (followLast : Bool) (path : String) :
    Except IoCause (Option Place × Entry) :=
  match streamPath? path with
  | some stream =>
    match world.stream? id stream with
    | none => .error .notFound
    | some (_, file) =>
      match file.target with
      | .device device => .ok (none, .device device)
      | .directory place => .ok (some place, .directory)
      | .file place => .ok (some place, .file ((world.data? file.target).getD .empty))
      | target => .ok (none, .file ((world.data? target).getD .empty))
  | none => do
    match ← (world.diskFrom here).find followLast (pathOf path) with
    | .at place entry => return (some place, entry)
    | .absent _ _ => throw .notFound

end World

end StyleTokens.Shell

/-
Files, directories, links and devices.

* `Disk` — a tree of files as a list of places with what is there, and the
  directory from which relative paths start; `Disk.fresh` — one without files;
* `Disk.find` — the place that a path leads to, along links;
* `Disk.read`, `Disk.write`, `Disk.create`, `Disk.makeDirectories`, `Disk.link`,
  `Disk.remove` — the operations;
* `Disk.files` — the files below a directory.

Design notes: a place is the list of the names that lead to it from the root.
The root itself is always a directory.  Following links is bounded by
`linkLimit`, and a walk along a path by its pieces and those of the links.
-/
import StyleTokens.Fault
import StyleTokens.Path

namespace StyleTokens

/-- Devices, which are read and written like files and keep nothing. -/
inductive Device
  /-- Takes everything and gives nothing. -/
  | null
  /-- Takes everything and gives zeros without an end. -/
  | zero
  /-- Takes nothing and gives zeros without an end. -/
  | full
  deriving DecidableEq, Repr, Inhabited

/-- What can be at a place. -/
inductive Entry
  | file (data : ByteArray)
  | directory
  | device (device : Device)
  /-- Leads on to the path of its text. -/
  | link (target : String)
  deriving Inhabited

/-- Whether there is a directory. -/
def Entry.isDirectory : Entry → Bool
  | directory => true
  | _ => false

/-- A place: the names from the root on. -/
abbrev Place := List String

/-- The text of a place. -/
def Place.path (place : Place) : Path :=
  ⟨"/" ++ "/".intercalate place⟩

/-- Files, directories and links by place. -/
structure Disk where
  entries : List (Place × Entry)
  /-- The directory that relative paths start from. -/
  here : Place
  deriving Inhabited

/-- Where a path leads. -/
inductive Found
  | at (place : Place) (entry : Entry)
  /-- Nothing has the name in the directory. -/
  | absent (parent : Place) (name : String)
  deriving Inhabited

namespace Disk

/-- Links that are followed on the way to one place. -/
def linkLimit : Nat := 40

/-- Bytes of the longest name. -/
def nameLimit : Nat := 255

/-- Bytes of the longest path. -/
def pathLimit : Nat := 4095

/-- What is at a place. -/
def entry? (disk : Disk) (place : Place) : Option Entry :=
  if place = [] then some .directory else disk.entries.lookup place

/-- The disk with something else at a place. -/
def set (disk : Disk) (place : Place) (entry : Entry) : Disk :=
  { disk with entries := (place, entry) :: disk.entries.filter (·.1 ≠ place) }

/-- The walk from a directory along the pieces of a path.  `links` and `steps` are
the links and the steps that are still allowed. -/
def follow (disk : Disk) (followLast : Bool) :
    (steps links : Nat) → Place → List String → Except IoCause Found
  | 0, _, _, _ => throw .tooManyLinks
  | _ + 1, _, place, [] =>
    match disk.entry? place with
    | some entry => return .at place entry
    | none => throw .notFound
  | steps + 1, links, place, piece :: rest =>
    if piece = "" || piece = "." then disk.follow followLast steps links place rest
    else if piece = ".." then disk.follow followLast steps links place.dropLast rest
    else if piece.utf8ByteSize > nameLimit then throw .nameTooLong
    else
      let next := place ++ [piece]
      match disk.entry? next with
      | none => if rest = [] then return .absent place piece else throw .notFound
      | some .directory => disk.follow followLast steps links next rest
      | some (.link target) =>
        if rest = [] && !followLast then return .at next (.link target)
        else
          match links with
          | 0 => throw .tooManyLinks
          | links + 1 =>
            let pieces := (Path.pieces target.toList).map String.ofList
            let start := if Path.isAbsolute ⟨target⟩ then [] else place
            disk.follow followLast steps links start (pieces ++ rest)
      | some entry => if rest = [] then return .at next entry else throw .notDirectory

/-- The pieces of a path; a slash at the end counts as a piece, so that only a
directory may be there. -/
def piecesOf (path : Path) : Except IoCause (List String) :=
  if path.text = "" then throw .notFound
  else if path.text.toList.contains '\x00' then throw .nulInName
  else if path.text.utf8ByteSize > pathLimit then throw .nameTooLong
  else return (Path.pieces path.text.toList).map String.ofList

/-- Steps that suffice for a path: the pieces of the path and of every link that
may be followed. -/
def stepLimit (disk : Disk) (pieces : List String) : Nat :=
  let targets := disk.entries.map fun
    | (_, .link target) => target.length + 1
    | _ => 0
  pieces.length + linkLimit * (targets.foldl max 0 + 1) + 1

/-- Where a path leads; `followLast` tells whether a link at the end is followed. -/
def find (disk : Disk) (followLast : Bool) (path : Path) : Except IoCause Found := do
  let pieces ← piecesOf path
  let start := if path.isAbsolute then [] else disk.here
  disk.follow followLast (disk.stepLimit pieces) linkLimit start pieces

/-- What is at the place that a path leads to. -/
def entryAt (disk : Disk) (path : Path) : Except IoCause Entry := do
  match ← disk.find true path with
  | .at _ entry => return entry
  | .absent _ _ => throw .notFound

/-- Whether a path leads anywhere. -/
def present (disk : Disk) (path : Path) : Bool :=
  (disk.entryAt path).toOption.isSome

/-- Whether a path leads to a directory. -/
def isDirectory (disk : Disk) (path : Path) : Bool :=
  (disk.entryAt path).toOption.any Entry.isDirectory

/-- Whether a path leads to a file. -/
def isFile (disk : Disk) (path : Path) : Bool :=
  match (disk.entryAt path).toOption with
  | some (.file _) => true
  | _ => false

/-- The bytes of a file; a device counts as an empty one. -/
def read (disk : Disk) (path : Path) : Except IoCause ByteArray := do
  match ← disk.entryAt path with
  | .file data => return data
  | .device _ => return .empty
  | _ => throw .isDirectory

/-- The number of bytes of a file; directories and devices have none. -/
def size (disk : Disk) (path : Path) : Except IoCause Nat := do
  match ← disk.entryAt path with
  | .file data => return data.size
  | _ => return 0

/-- The path to the same place without links and dots. -/
def canonical (disk : Disk) (path : Path) : Except IoCause Path := do
  match ← disk.find true path with
  | .at place _ => return place.path
  | .absent _ _ => throw .notFound

/-- The path without the slashes at its end. -/
def withoutSlashes (path : Path) : Path :=
  let rest := path.text.toList.reverse.dropWhile (· == '/')
  if rest.isEmpty then path else ⟨String.ofList rest.reverse⟩

/-- The place of a file to be written.  A link to a place where nothing is yet
leads there.  A path that ends with a slash is no path of a file, whatever its last
name is; only the directory with that name has to be there. -/
def target (disk : Disk) (followLast : Bool) (path : Path) : Except IoCause Found := do
  let plain := withoutSlashes path
  if plain ≠ path then
    let pieces := (← piecesOf plain).dropLast ++ ["."]
    let start := if path.isAbsolute then [] else disk.here
    discard (disk.follow true (disk.stepLimit pieces) linkLimit start pieces)
    throw .isDirectory
  disk.find followLast path

/-- Writes a file, in place of an older one if there is one. -/
def write (disk : Disk) (path : Path) (data : ByteArray) : Except IoCause Disk := do
  match ← disk.target true path with
  | .at _ .directory => throw .isDirectory
  | .at _ (.device device) =>
    if device = .full && 0 < data.size then throw .noSpace else return disk
  | .at place _ => return disk.set place (.file data)
  | .absent parent name => return disk.set (parent ++ [name]) (.file data)

/-- Puts something where nothing was. -/
def add (disk : Disk) (found : Found) (entry : Entry) : Except IoCause Disk :=
  match found with
  | .at _ _ => throw .alreadyExists
  | .absent parent name => return disk.set (parent ++ [name]) entry

/-- Writes a file that must not be there yet. -/
def create (disk : Disk) (path : Path) (data : ByteArray) : Except IoCause Disk := do
  disk.add (← disk.target false path) (.file data)

/-- Makes a directory in one that is there. -/
def makeDirectory (disk : Disk) (path : Path) : Except IoCause Disk := do
  disk.add (← disk.find false (withoutSlashes path)) .directory

/-- Makes a directory and those that lead to it, `depth` of them at most.  What was
made stays when one of them fails. -/
def makeDirectoriesFrom : (depth : Nat) → Path → Disk → Except IoCause Unit × Disk
  | 0, _, disk => (throw .notFound, disk)
  | depth + 1, path, disk =>
    if path.parts = [] then (return, disk)
    else
      match disk.makeDirectory path with
      | .ok disk => (return, disk)
      | .error .notFound =>
        match makeDirectoriesFrom depth (path.parent?.getD ⟨""⟩) disk with
        | (.error cause, disk) => (throw cause, disk)
        | (.ok _, disk) => settle path disk (disk.makeDirectory path)
      | .error cause => settle path disk (throw cause)
where
  /-- A directory that is there after all is as good as one that was made. -/
  settle (path : Path) (disk : Disk) : Except IoCause Disk → Except IoCause Unit × Disk
    | .ok disk => (return, disk)
    | .error cause => (if disk.isDirectory path then return else throw cause, disk)

/-- Makes a directory and those that lead to it, as far as they are missing. -/
def makeDirectories (disk : Disk) (path : Path) : Except IoCause Unit × Disk :=
  makeDirectoriesFrom (path.parts.length + 1) path disk

/-- Puts a link where nothing was. -/
def link (disk : Disk) (path : Path) (target : String) : Except IoCause Disk := do
  disk.add (← disk.find false path) (.link target)

/-- Removes what a path leads to, and all below it; a link itself is removed. -/
def remove (disk : Disk) (path : Path) : Except IoCause Disk := do
  match ← disk.find false (withoutSlashes path) with
  | .at place _ => return { disk with entries := disk.entries.filter (!place.isPrefixOf ·.1) }
  | .absent _ _ => throw .notFound

/-- The files below a directory, each by the names that lead to it; a file has only
itself, by no name.  A link is followed at the root alone, and there only to a
directory. -/
def files (disk : Disk) (root : Path) : Except IoCause (List (List String)) := do
  match ← disk.find false root with
  | .at _ (.file _) => return [[]]
  | _ =>
    match ← disk.find true root with
    | .at place .directory =>
      return disk.entries.filterMap fun
        | (other, .file _) =>
          if place.isPrefixOf other then some (other.drop place.length) else none
        | _ => none
    | .at _ _ => return []
    | .absent _ _ => throw .notFound

/-- What there is besides files. -/
def system : List (Place × Entry) := [
  (["dev"], .directory), (["dev", "null"], .device .null), (["dev", "zero"], .device .zero),
  (["dev", "full"], .device .full), (["tmp"], .directory)]

/-- A disk without files, with a directory that relative paths start from. -/
def fresh (here : Place) : Disk :=
  let above := (List.range here.length).map fun n => (here.take (n + 1), Entry.directory)
  { entries := system.filter (fun (place, _) => !place.isPrefixOf here) ++ above, here }

end Disk

end StyleTokens

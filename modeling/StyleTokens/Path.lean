/-
Paths of files.

A path is a text of names between slashes.  What it denotes is decided by its
parts: repeated slashes and single dots within a path do not count.

* `Path.parts` — the parts of a path; `Path.ofParts` — a path with given parts;
* `Path.join` and `Path.under` — a path seen from another one;
* `Path.plain` — the parts as text, with single dots dropped;
* `Path.relativeTo?` — how to get from one path to another.

Design notes: `join` works on the text, because that text is what messages show;
everything else works on parts.
-/
namespace StyleTokens

/-- A path as it is written. -/
structure Path where
  text : String
  deriving DecidableEq, Repr, Inhabited

/-- A part of a path. -/
inductive Part
  /-- The root, in front of all other parts. -/
  | root
  /-- A single dot at the start of a relative path. -/
  | here
  | up
  | name (text : String)
  deriving DecidableEq, Repr, Inhabited

/-- The part as text; the root has none, as its slash stands between parts. -/
def Part.text : Part → String
  | root => ""
  | here => "."
  | up => ".."
  | name text => text

namespace Path

/-- The pieces of a text between slashes. -/
def pieces : List Char → List (List Char)
  | [] => [[]]
  | c :: rest =>
    if c = '/' then [] :: pieces rest
    else
      match pieces rest with
      | [] => [[c]]
      | piece :: others => (c :: piece) :: others

/-- The part that a piece stands for. -/
def part? (piece : List Char) : Option Part :=
  if piece = [] || piece = ['.'] then none
  else if piece = ['.', '.'] then some .up
  else some (.name (String.ofList piece))

/-- Whether the path starts at the root. -/
def isAbsolute (path : Path) : Bool :=
  path.text.toList.head? == some '/'

/-- The parts of a path. -/
def parts (path : Path) : List Part :=
  let all := pieces path.text.toList
  let named := all.filterMap part?
  if path.isAbsolute then .root :: named
  else if all.head? = some ['.'] then .here :: named
  else named

/-- The path with the given parts. -/
def ofParts (parts : List Part) : Path :=
  match parts with
  | [.root] => ⟨"/"⟩
  | _ => ⟨"/".intercalate (parts.map Part.text)⟩

/-- The second path as seen from the first. -/
def join (base path : Path) : Path :=
  if path.isAbsolute then path
  else if base.text = "" || base.text.toList.getLast? = some '/' then ⟨base.text ++ path.text⟩
  else ⟨base.text ++ "/" ++ path.text⟩

/-- A name below a path. -/
def child (base : Path) (name : String) : Path :=
  base.join ⟨name⟩

/-- A path below a root, unless it is absolute. -/
def under (root path : Path) : Path :=
  if path.isAbsolute then path else root.join path

/-- The parts as text, without single dots; the bare root is the empty text. -/
def plain (path : Path) : String :=
  "/".intercalate ((path.parts.filter (· ≠ .here)).map Part.text)

/-- The path without its last part; the root and the empty path have none. -/
def parent? (path : Path) : Option Path :=
  match path.parts.reverse with
  | [] | .root :: _ => none
  | _ :: rest => some (ofParts rest.reverse)

/-- The name at the end of a path. -/
def fileName? (path : Path) : Option String :=
  match path.parts.getLast? with
  | some (.name text) => some text
  | _ => none

/-- The way from one list of parts to another; `moved` says that it has begun. -/
def way : (moved : Bool) → (target base : List Part) → Option (List Part)
  | _, target, [] => some target
  | _, [], base => some (base.map fun _ => .up)
  | moved, part :: target, other :: base =>
    if !moved && part = other then way false target base
    else if other = .here then (way true target base).map (part :: ·)
    else if other = .up then none
    else some (.up :: base.map (fun _ => .up) ++ part :: target)

/-- How to get to a path from a base, if the parts of both tell. -/
def relativeTo? (path base : Path) : Option Path :=
  if path.isAbsolute != base.isAbsolute then
    if path.isAbsolute then some path else none
  else
    (way false path.parts base.parts).map ofParts

end Path

end StyleTokens

/-
From expanded words to fields.

* `Stretch` — a part of an expanded word: signs that belong together, or a value that
  may be cut;
* `Stretch.fields` — the fields that stretches are cut into;
* `Stretch.split` — a line cut into so many fields;
* `pathsOf` — the paths that a field with wildcards stands for.
-/
import StyleTokens.Shell.Process
import StyleTokens.Shell.Wildcard

namespace StyleTokens.Shell

/-- A part of an expanded word. -/
inductive Glyph
  | sign (c : Char) (quoted : Bool)
  /-- A quotation mark. -/
  | mark
  /-- The border between two arguments. -/
  | border
  deriving DecidableEq, Repr, Inhabited

/-- Where a stretch may be cut. -/
inductive Region
  | nowhere
  /-- At separators and borders. -/
  | separators
  /-- At borders only. -/
  | borders
  deriving DecidableEq, Repr, Inhabited

/-- Glyphs that may be cut at the same signs. -/
structure Stretch where
  region : Region := .nowhere
  glyphs : List Glyph
  deriving DecidableEq, Repr, Inhabited

/-- The signs of glyphs, without marks. -/
def Glyph.field (glyphs : List Glyph) : Field :=
  glyphs.filterMap fun
    | .sign c quoted => some (c, quoted)
    | .mark | .border => none

namespace Stretch

/-- The signs of stretches as one field. -/
def field (stretches : List Stretch) : Field :=
  Glyph.field (stretches.flatMap (·.glyphs))

/-- The text of stretches as one field. -/
def text (stretches : List Stretch) : String :=
  (field stretches).text

/-- A cut that is being made. -/
structure Cut where
  /-- Fields that are complete, in reverse. -/
  done : List (List Glyph) := []
  /-- The glyphs of the field that has begun, in reverse. -/
  current : List Glyph := []
  /-- Whether blanks have just ended a field. -/
  blank : Bool := false
  /-- Whether the last region was cut at borders only. -/
  borders : Bool := false
  /-- How many fields are still wanted, if that is limited; with none left, the last
  one takes all. -/
  wanted : Option Nat := none
  /-- The current field without what is dropped of its end. -/
  kept : Option (List Glyph) := none

/-- The cut with one more glyph in the current field. -/
def Cut.add (cut : Cut) (glyph : Glyph) : Cut :=
  { cut with current := glyph :: cut.current, blank := false }

/-- The cut with the current field completed. -/
def Cut.finish (cut : Cut) (blank : Bool) : Cut :=
  { cut with done := cut.current.reverse :: cut.done, current := [], blank }

/-- Whether a glyph separates fields, and whether as a blank. -/
def separates (separators : List Char) : Glyph → Bool × Bool
  | .sign c _ => (separators.contains c, separators.contains c && [' ', '\t', '\n'].contains c)
  | .border => (true, true)
  | .mark => (false, false)

/-- The cut after a glyph of a region. -/
def Cut.step (separators : List Char) (after : Bool) (cut : Cut) (glyph : Glyph) : Cut :=
  let (ends, blank) := separates separators glyph
  if cut.wanted = some 0 then
    let current := glyph :: cut.current
    if blank then { cut with current, kept := cut.kept.or (some cut.current) }
    else { cut with current, kept := if ends && cut.blank then cut.kept else none, blank := false }
  else if cut.blank && blank then cut
  else if cut.blank && ends then { cut with blank := false }
  else if cut.blank then { cut with current := [glyph], blank := false }
  else if !ends then cut.add glyph
  else
    let isBlank := blank && !(after || cut.borders)
    if cut.current.isEmpty && isBlank then cut
    else if cut.wanted = some 1 then
      { cut with
        current := glyph :: cut.current, kept := some cut.current, wanted := some 0
        blank := isBlank }
    else { cut.finish isBlank with wanted := cut.wanted.map (· - 1) }

/-- The cut after a stretch. -/
def Cut.stretch (separators : List Char) (cut : Cut) (stretch : Stretch) : Cut :=
  match stretch.region with
  | .nowhere =>
    { cut with current := stretch.glyphs.reverse ++ cut.current }
  | region =>
    let borders := region = .borders
    let separators := if borders then [] else separators
    let start := { cut with blank := false, borders }
    stretch.glyphs.foldl (Cut.step separators cut.borders) start

/-- The fields of stretches, which may be limited in number. -/
def split (separators : List Char) (wanted : Option Nat) (stretches : List Stretch) :
    List Field :=
  let cut := stretches.foldl (Cut.stretch separators) { wanted }
  let current := cut.kept.getD cut.current
  let last := if current.isEmpty && !cut.borders then [] else [current.reverse]
  (cut.done.reverse ++ last).map Glyph.field

/-- The fields of stretches. -/
def fields (separators : List Char) (stretches : List Stretch) : List Field :=
  split separators none stretches

end Stretch

/-! Paths -/

/-- A field cut at slashes. -/
def Field.parts : Field → List Field
  | [] => [[]]
  | (c, quoted) :: rest =>
    match Field.parts rest with
    | [] => []
    | part :: others =>
      if c = '/' then [] :: part :: others else ((c, quoted) :: part) :: others

/-- The names of what is right in a directory, as octet texts in order. -/
def namesIn (disk : Disk) (place : Place) : List String :=
  let names := disk.entries.filterMap fun (other, _) =>
    if place.isPrefixOf other && other.length = place.length + 1 then other.getLast? else none
  (names.map Octets.ofText).mergeSort (fun a b => decide (a ≤ b))

/-- The names that a directory lists, with those of itself and of the one above. -/
def namesBelow (disk : Disk) (path : String) : List String :=
  match disk.find true (pathOf path) with
  | .ok (.at place .directory) => "." :: ".." :: namesIn disk place
  | _ => []

/-- Whether a name is matched; a dot at its start has to be written. -/
def acceptsName (part : Field) (name : String) : Bool :=
  let hidden := name.startsWith "." && (part.head?.map (·.1)) ≠ some '.'
  !hidden && Wildcard.accepts (Wildcard.ofField part) name.toList

/-- Whether a path leads somewhere, or to a link. -/
def isListed (disk : Disk) (path : String) : Bool :=
  match disk.find false (pathOf path) with
  | .ok (.at _ _) => true
  | _ => false

/-- Whether a field has wildcards. -/
def Field.isOpen (field : Field) : Bool :=
  (Wildcard.ofField field).any Wildcard.isOpen

/-- Whether a field has signs of wildcards, quoted or not. -/
def Field.isMarked (field : Field) : Bool :=
  field.any fun (c, _) => c = '*' || c = '?' || c = '['

/-- The paths that parts stand for, behind a text. -/
def pathsFrom (disk : Disk) (before : String) : List Field → List String
  | [] => []
  | part :: rest =>
    if part.isOpen then
      let names := (namesBelow disk (if before = "" then "." else before)).filter (acceptsName part)
      if rest.isEmpty then names.map (before ++ ·)
      else names.flatMap fun name => pathsFrom disk (before ++ name ++ "/") rest
    else
      let path := before ++ part.text
      if rest.isEmpty then if isListed disk path then [path] else []
      else pathsFrom disk (path ++ "/") rest

/-- The paths that a field stands for: itself, if it has no signs of wildcards or
nothing matches it. -/
def pathsOf (disk : Disk) (field : Field) : List String :=
  if field.isMarked then
    match pathsFrom disk "" field.unescaped.parts with
    | [] => [field.text]
    | paths => paths.mergeSort (fun a b => decide (a ≤ b))
  else [field.text]

end StyleTokens.Shell

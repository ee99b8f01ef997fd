/-
Which files a command looks at.

* `Source` — a glob, or a report that lists files;
* `reportEntries?` — the entries of such a report, in whichever of its shapes;
* `Catalog.entryPath` — an entry as a path below the root;
* `Catalog.list` — the files of a source, in order and each once.
-/
import StyleTokens.Glob
import StyleTokens.Json.Decode
import StyleTokens.Json.Reader
import StyleTokens.Names
import StyleTokens.Script

namespace StyleTokens

/-- Where the files of a command come from. -/
inductive Source
  | report (path : Path)
  | glob (text : String)
  deriving DecidableEq, Repr, Inhabited

/-- A directory to look in, and the names of directories that are not entered. -/
structure Catalog where
  root : Path
  skipped : List String := ["node_modules", ".git", "dist", "backups"]
  deriving DecidableEq, Repr, Inhabited

/-- The entry that an item of a report stands for: a path, or an object that holds
one as its file or its path. -/
def reportEntry? (item : Json) : Option String :=
  match item with
  | .string text => some text
  | .object _ =>
    match (item.member? "file").or (item.member? "path") with
    | some (.string text) => some text
    | _ => none
  | _ => none

/-- The entries of a report: its items, those of its list of files, or those of its
list of issues.  Items without a path, and blank ones, do not count. -/
def reportEntries? (document : Json) : Option (List String) :=
  let items? :=
    match document with
    | .array items => some items
    | .object _ =>
      match (document.member? "files").or (document.member? "issues") with
      | some (.array items) => some items
      | _ => none
    | _ => none
  items?.map fun items =>
    (items.filterMap reportEntry?).filter fun text => !Text.allBlank text.toList

namespace Catalog

/-- The catalog that does not enter directories of one more name. -/
def skipping (catalog : Catalog) (name : String) : Catalog :=
  if catalog.skipped.contains name then catalog
  else { catalog with skipped := catalog.skipped ++ [name] }

/-- The catalog that does not enter directories named like that of the backups. -/
def skippingBackups (catalog : Catalog) (backups : Path) : Catalog :=
  match backups.fileName? with
  | some name => catalog.skipping name
  | none => catalog

/-- The path that an entry of a report stands for, seen from the root if it lies
below it.  An entry that goes up is refused, as two entries could then name one
file. -/
def entryPath (catalog : Catalog) (entry : String) : Except Fault String :=
  let path : Path := ⟨Text.trimmed entry⟩
  if path.parts.contains .up then throw (.invalidArgument (.parentInEntry entry))
  else
    let below := (path.relativeTo? catalog.root).filter (·.parts.head? ≠ some .up)
    return if path.isAbsolute then (below.getD path).plain else path.plain

/-- The files that a report lists. -/
def listReport (catalog : Catalog) (path : Path) : Action Names := do
  let path := catalog.root.under path
  Action.ensurePresent path
  let text ← Action.readText path
  match Json.read text with
  | .error reason => throw (.json reason)
  | .ok document =>
    match document.plain? Json.depthLimit with
    | none => throw (.json "value out of range")
    | some document =>
      match reportEntries? document with
      | none => throw (.invalidArgument (.noFileList path.text))
      | some entries => return .ofList (← (entries.mapM catalog.entryPath : Except Fault _))

/-- Whether a file lies in a directory that is not entered. -/
def hides (catalog : Catalog) (names : List String) : Bool :=
  names.dropLast.any catalog.skipped.contains

/-- The files below the root that a glob matches. -/
def listGlob (catalog : Catalog) (text : String) : Action Names := do
  Action.ensurePresent catalog.root
  let glob ← (Glob.parse text : Except Fault Glob)
  match ← Script.request (.files catalog.root) with
  | .error cause => throw (.invalidArgument (.unwalkable catalog.root.text cause))
  | .ok found =>
    let paths := (found.filter (!catalog.hides ·)).map ("/".intercalate ·)
    return .ofList (paths.filter glob.accepts)

/-- The files of a source. -/
def list (catalog : Catalog) : Source → Action Names
  | .report path => catalog.listReport path
  | .glob text => catalog.listGlob text

end Catalog

end StyleTokens

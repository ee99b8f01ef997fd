/-
Where reports are filed.

A report never takes the place of another one: when its name is taken, a number
is put behind it.

* `ReportStore.file` — files a document under a name, and tells where it is.
-/
import StyleTokens.Json.Writer
import StyleTokens.Script

namespace StyleTokens

/-- The directory of the reports. -/
structure ReportStore where
  directory : Path
  deriving DecidableEq, Repr, Inhabited

namespace ReportStore

/-- How many names are tried. -/
def nameLimit : Nat := 10000

/-- What stands before the ending of a name. -/
def stem (name : String) : String :=
  if name.endsWith ".json" then String.ofList (name.toList.take (name.length - 5)) else name

/-- The place of a document under a name, at the given attempt. -/
def place (store : ReportStore) (name : String) (attempt : Nat) : Path :=
  let number := if attempt = 1 then "" else "-" ++ toString attempt
  store.directory.child (stem name ++ number ++ ".json")

/-- Files a document under the first name that is free, `left` names at most. -/
def fileFrom (store : ReportStore) (name : String) (data : ByteArray) :
    (left attempt : Nat) → Action Path
  | 0, _ => throw (.invalidArgument (.noFreeName name store.directory.text))
  | left + 1, attempt => do
    let path := store.place name attempt
    match ← Script.request (.create path data) with
    | .ok _ => return path
    | .error .alreadyExists => store.fileFrom name data left (attempt + 1)
    | .error cause => throw (.io cause)

/-- Files a document under a name. -/
def file (store : ReportStore) (name : String) (document : Json) : Action Path := do
  Action.makeDirectories store.directory
  store.fileFrom name (document.pretty ++ "\n").toUTF8 nameLimit 1

end ReportStore

end StyleTokens

/-
Programs for paths.

* `Tool.basename`, `Tool.dirname` — parts of a path as it is written;
* `Tool.readlink`, `Tool.realpath`, `Tool.pwd` — where a path leads.
-/
import StyleTokens.Shell.Tool.File

namespace StyleTokens.Shell.Tool

/-- Writes a text with the sign that ends it. -/
def sayEnded (zero : Bool) (text : String) : Tool Unit :=
  say (text ++ if zero then String.singleton (Char.ofNat 0) else "\n")

/-- A name without a suffix, unless it is the suffix. -/
def withoutSuffix (suffix name : String) : String :=
  if name ≠ suffix && name.endsWith suffix then
    String.ofList (name.toList.take (name.length - suffix.length))
  else name

/-- Writes the last names of paths. -/
def basename : Tool Nat := do
  let line ← line {
    letters := "as:z", inOrder := true
    names := [("multiple", .nothing, "a"), ("suffix", .value, "s"), ("zero", .nothing, "z")] } 1
  let zero := line.has "z"
  match line.operands with
  | [] => misuse 1 "missing operand"
  | path :: rest =>
    if line.has "a" || line.has "s" then
      let suffix := (line.last? "s").getD ""
      line.operands.forM fun path => sayEnded zero (withoutSuffix suffix (lastName path))
    else
      match rest with
      | [] => sayEnded zero (lastName path)
      | [suffix] => sayEnded zero (withoutSuffix suffix (lastName path))
      | _ :: extra :: _ => misuse 1 ("extra operand " ++ Naming.marked extra)
    return 0

/-- A path without its last name. -/
def withoutName (path : String) : String :=
  let signs := (trimmed path).toList.reverse
  let above := (signs.dropWhile (· ≠ '/')).dropWhile (· = '/')
  if !above.isEmpty then String.ofList above.reverse
  else if path.startsWith "/" then "/" else "."

/-- Writes paths without their last names. -/
def dirname : Tool Nat := do
  let line ← line { letters := "z", names := [("zero", .nothing, "z")] } 1
  if line.operands.isEmpty then misuse 1 "missing operand"
  line.operands.forM fun path => sayEnded (line.has "z") (withoutName path)
  return 0

/-! Where paths lead -/

/-- What has to be there of a path. -/
inductive Demanded
  | all
  | butLast
  | nothing
  deriving DecidableEq, Repr, Inhabited

/-- The place of the names of a path; those behind a name that leads nowhere are taken
as they are.  `steps` and `links` are those that are still allowed. -/
def placeAlong (disk : Disk) : (steps links : Nat) → Place → List String → Place
  | 0, _, place, _ => place
  | _, _, place, [] => place
  | steps + 1, links, place, name :: rest =>
    if name = "" || name = "." then placeAlong disk steps links place rest
    else if name = ".." then placeAlong disk steps links place.dropLast rest
    else
      match disk.entry? (place ++ [name]), links with
      | some (.link target), links + 1 =>
        let start := if Path.isAbsolute ⟨target⟩ then [] else place
        placeAlong disk steps links start (target.splitOn "/" ++ rest)
      | _, links => placeAlong disk steps links (place ++ [name]) rest

/-- The place that a path leads to. -/
def placeOf (demanded : Demanded) (path : String) : Tool (Except IoCause Place) := do
  let disk ← disk
  if path.isEmpty then return .error .notFound
  match demanded with
  | .nothing =>
    let text := (pathOf path).text
    let start := if text.startsWith "/" then [] else disk.here
    let limit := 1000 + 100 * text.length
    return .ok (placeAlong disk limit Disk.linkLimit start (text.splitOn "/"))
  | .all =>
    match disk.find true (pathOf path) with
    | .ok (.at place _) => return .ok place
    | .ok (.absent _ _) => return .error .notFound
    | .error cause => return .error cause
  | .butLast =>
    let found := disk.find true (pathOf path)
    let found :=
      match found with
      | .error .notFound => disk.find true (pathOf (trimmed path))
      | found => found
    match found with
    | .ok (.at place _) => return .ok place
    | .ok (.absent parent name) => return .ok (parent ++ [name])
    | .error cause => return .error cause

/-- A place as it is written. -/
def placeText (place : Place) : String :=
  Octets.ofText place.path.text

/-- Writes where links lead. -/
def readlink : Tool Nat := do
  let (choices, operands) ← options {
    letters := "femnqsvz"
    names := [
      ("canonicalize", .nothing, "f"), ("canonicalize-existing", .nothing, "e"),
      ("canonicalize-missing", .nothing, "m"), ("no-newline", .nothing, "n"),
      ("quiet", .nothing, "q"), ("silent", .nothing, "s"), ("verbose", .nothing, "v"),
      ("zero", .nothing, "z")] } 1 ([] : List String) fun names name _ => return name :: names
  if operands.isEmpty then misuse 1 "missing operand"
  let demanded := choices.findSome? fun name =>
    [("f", Demanded.butLast), ("e", .all), ("m", .nothing)].lookup name
  let many := 1 < operands.length
  if many && choices.contains "n" then warn "ignoring --no-newline with multiple arguments"
  let tells := (choices.find? fun name => name = "v" || name = "q" || name = "s") = some "v"
  forAll operands fun operand => do
    let found : Except IoCause String ←
      match demanded with
      | some demanded =>
        match ← placeOf demanded operand with
        | .ok place => pure (.ok (placeText place))
        | .error cause => pure (.error cause)
      | none =>
        match ← lookAt false operand with
        | .ok (_, .link target) => pure (.ok (Octets.ofText target))
        | .ok _ => pure (.error (.other "Invalid argument"))
        | .error cause => pure (.error cause)
    match found with
    | .ok text =>
      if choices.contains "n" && !many then say text else sayEnded (choices.contains "z") text
      return 0
    | .error cause =>
      if tells then warn (refusal operand cause)
      return 1

/-- A path from one place to another. -/
def pathBetween (start goal : Place) : Place :=
  match start, goal with
  | a :: start, b :: goal =>
    if a = b then pathBetween start goal
    else (a :: start).map (fun _ => "..") ++ b :: goal
  | start, goal => start.map (fun _ => "..") ++ goal

/-- Writes the places that paths lead to. -/
def realpath : Tool Nat := do
  let line ← line {
    letters := "eLmPqsz"
    names := [
      ("canonicalize-existing", .nothing, "e"), ("canonicalize-missing", .nothing, "m"),
      ("logical", .nothing, "L"), ("physical", .nothing, "P"), ("quiet", .nothing, "q"),
      ("strip", .nothing, "s"), ("no-symlinks", .nothing, "s"), ("zero", .nothing, "z"),
      ("relative-to", .value, "to"), ("relative-base", .value, "base")] } 1
  if line.operands.isEmpty then misuse 1 "missing operand"
  let names := line.options.map (·.1)
  let demanded := (names.reverse.findSome? fun name =>
    [("e", Demanded.all), ("m", .nothing)].lookup name).getD .butLast
  let strips := names.contains "s"
  let here := (← disk).here
  let found := fun (path : String) => do
    if !strips then placeOf demanded path
    else
      match ← placeOf demanded path with
      | .error cause => return .error cause
      | .ok _ =>
        let text := (pathOf path).text
        let start := if text.startsWith "/" then [] else here
        return .ok ((text.splitOn "/").foldl (fun place name =>
          if name = "" || name = "." then place
          else if name = ".." then place.dropLast else place ++ [name]) start)
  let base := fun (name : String) => do
    match line.last? name with
    | none => return none
    | some path =>
      match ← found path with
      | .ok place => return some place
      | .error cause => fail 1 (refusal path cause)
  let origin ← base "to"
  let base ← base "base"
  forAll line.operands fun operand => do
    match ← found operand with
    | .error cause =>
      if !line.has "q" then
        warn ((if operand.isEmpty then "''" else Naming.needed operand) ++ ": " ++ reasonOf cause)
      return 1
    | .ok place =>
      let inBase := base.all (·.isPrefixOf place)
      let text :=
        match origin.or base with
        | some start =>
          if inBase then
            let names := pathBetween start place
            if names.isEmpty then "." else Octets.ofText ("/".intercalate names)
          else placeText place
        | none => placeText place
      sayEnded (line.has "z") text
      return 0

/-- Writes the directory of the process. -/
def pwd : Tool Nat := do
  let line ← line {
    letters := "LP", names := [("logical", .nothing, "L"), ("physical", .nothing, "P")] } 1
  if !line.operands.isEmpty then warn "ignoring non-option arguments"
  let call ← read
  let isLogical := (line.options.getLast?).map (·.1) = some "L"
  let known := (call.environment.lookup "PWD").filter fun path =>
    isLogical && path.startsWith "/" && !(path.splitOn "/").any fun name => name = "." || name = ".."
  let path ←
    match known with
    | some path =>
      match ← lookAt true path with
      | .ok (some place, _) => pure (if place = call.here then path else placeText call.here)
      | _ => pure (placeText call.here)
    | none => pure (placeText call.here)
  sayLine path
  return 0

end StyleTokens.Shell.Tool

/-
Commands of the shell for its directory and its limits.

* `Run.changeDirectory` — `cd`;
* `Run.showDirectory` — `pwd`;
* `Run.umask`, `Run.ulimit`, `Run.times` — permissions, limits, times.

Design notes: the directory is known by the path along which it was gone, too, and
two dots lead back along that.
-/
import StyleTokens.Shell.Builtin.Basic
import StyleTokens.Shell.Tool.Mode

namespace StyleTokens.Shell.Run

/-- The names along a path that is gone from a directory; two dots lead back. -/
def namesAlong (start : List String) (path : String) : List String :=
  let start := if path.startsWith "/" then [] else start
  (path.splitOn "/").foldl (fun names name =>
    if name = "" || name = "." then names
    else if name = ".." then names.dropLast
    else names ++ [name]) start

/-- The path along which a directory is gone. -/
def pathAlong (here path : String) : String :=
  let double := path.startsWith "//" && !path.startsWith "///"
  let double := double || (!path.startsWith "/" && here.startsWith "//")
  let names := namesAlong ((here.splitOn "/").filter (· ≠ "")) path
  (if double then "//" else "/") ++ "/".intercalate names

/-- The path of a place, as an octet text. -/
def pathText (place : Place) : String :=
  Octets.ofText place.path.text

/-- Makes a directory the current one; gives whether this was possible. -/
def moveTo (physical : Bool) (path : String) : Run Bool := do
  let process ← get
  let goal := if physical then path else pathAlong process.path path
  match ← look fun world => world.entryAt process.id process.here true goal with
  | .ok (some place, .directory) =>
    let path := if physical then pathText place else goal
    let exported := fun (value : String) => some ({ value := some value, exported := true } : Variable)
    modify fun process => { process with here := place, path }
    restore "OLDPWD" (exported process.path)
    restore "PWD" (exported path)
    return true
  | _ => return false

/-- The options of `cd` and `pwd`: whether links are followed. -/
def physicalOption (arguments : List String) : Run (Bool × List String) := do
  let (options, rest) ← letters "LP" arguments
  return (options.getLast?.map (·.1) = some 'P', rest)

/-- Whether a path is not looked for along other directories. -/
def isFixed (path : String) : Bool :=
  match (path.splitOn "/").head? with
  | some first => first = "." || first = ".." || path.startsWith "/"
  | none => false

/-- The command `cd`. -/
def changeDirectory (arguments : List String) : Run Nat := do
  let (physical, rest) ← physicalOption arguments
  let (goal, told) ←
    match rest with
    | [] => pure ((← value? "HOME").getD "", false)
    | "-" :: _ => pure ((← value? "OLDPWD").getD "", true)
    | path :: _ => pure (path, false)
  let tell := do
    let path := (← get).path
    say (path ++ "\n")
    return 0
  let direct := do
    if ← moveTo physical goal then
      if told then tell else return 0
    else fail ("can't cd to " ++ goal)
  if isFixed goal then direct
  else
    let goal := if goal = "" then "." else goal
    match ← value? "CDPATH" with
    | none =>
      if ← moveTo physical goal then
        if told then tell else return 0
      else fail ("can't cd to " ++ goal)
    | some directories =>
      let process ← get
      let world ← look id
      let isThere := fun (path : String) =>
        match world.entryAt process.id process.here true path with
        | .ok (_, .directory) => true
        | _ => false
      let found := (directories.splitOn ":").findSome? fun directory =>
        let path := if directory = "" then goal else directory ++ "/" ++ goal
        if isThere path then some (directory, path) else none
      match found with
      | none => direct
      | some (directory, path) =>
        if ← moveTo physical path then
          if told || directory ≠ "" then tell else return 0
        else fail ("can't cd to " ++ goal)

/-- The command `pwd`. -/
def showDirectory (arguments : List String) : Run Nat := do
  let (physical, _) ← physicalOption arguments
  let process ← get
  say ((if physical then pathText process.here else process.path) ++ "\n")
  return 0

/-! Limits -/

/-- The command `umask`. -/
def umask (arguments : List String) : Run Nat := do
  let (options, rest) ← letters "S" arguments
  let mask := (← get).mask
  match rest with
  | [] =>
    if options.isEmpty then say (Mode.digits 4 mask ++ "\n")
    else
      let part := fun (shift : Nat) =>
        let bits := (0o777 ^^^ mask) >>> shift
        let letters := [(4, 'r'), (2, 'w'), (1, 'x')].filterMap fun (bit, letter) =>
          if bits &&& bit ≠ 0 then some letter else none
        String.ofList letters
      say ("u=" ++ part 6 ++ ",g=" ++ part 3 ++ ",o=" ++ part 0 ++ "\n")
    return 0
  | text :: _ =>
    if (text.toList.head?.map Char.isDigit).getD false then
      if !text.all (fun c => '0' ≤ c && c ≤ '7') then fail ("Illegal number: " ++ text)
      let n := text.toList.foldl (fun n c => n * 8 + (c.toNat - 48)) 0
      modify fun process => { process with mask := n &&& 0o777 }
      return 0
    else
      match Mode.change? 0 false text (0o777 ^^^ mask) with
      | some mode =>
        modify fun process => { process with mask := (0o777 ^^^ mode) &&& 0o777 }
        return 0
      | none => fail ("Illegal mode: " ++ text)

/-- The limits: their letters, what they are of, and what they are. -/
def limits : List (Char × String × String) := [
  ('t', "time(seconds)", "unlimited"), ('f', "file(blocks)", "unlimited"),
  ('d', "data(kbytes)", "unlimited"), ('s', "stack(kbytes)", "8192"),
  ('c', "coredump(blocks)", "0"), ('m', "memory(kbytes)", "unlimited"),
  ('l', "locked memory(kbytes)", "8192"), ('p', "process", "unlimited"),
  ('n', "nofiles", "1048576"), ('v', "vmemory(kbytes)", "unlimited"), ('w', "locks", "unlimited"),
  ('r', "rtprio", "0")]

/-- The command `ulimit`. -/
def ulimit (arguments : List String) : Run Nat := do
  let (options, rest) ← letters "HSatfdscmlpnvwr" arguments
  let options := (options.map (·.1)).filter fun c => c ≠ 'H' && c ≠ 'S'
  if options.contains 'a' then
    limits.forM fun (_, name, value) =>
      say (name ++ String.ofList (List.replicate (20 - name.length) ' ') ++ " " ++ value ++ "\n")
    return 0
  let letter := options.getLast?.getD 'f'
  match rest with
  | [] => say (((limits.lookup letter).map (·.2)).getD "unlimited" ++ "\n")
  | [value] => if value ≠ "unlimited" then discard (badNumber value)
  | _ => fail "too many arguments"
  return 0
where
  /-- Refuses a value that is no number. -/
  badNumber (value : String) : Run Unit := do
    if !value.all Char.isDigit then fail "bad number"

/-- The command `times`. -/
def times : Run Nat := do
  let line := "0m0.000000s 0m0.000000s\n"
  say (line ++ line)
  return 0

end StyleTokens.Shell.Run

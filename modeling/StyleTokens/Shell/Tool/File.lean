/-
Programs that change the tree of files.

* `Tool.mkdir`, `Tool.rmdir`, `Tool.rm`, `Tool.touch` — files made and removed;
* `Tool.ln`, `Tool.cp`, `Tool.mv` — files at other places;
* `Tool.chmod`, `Tool.truncate`, `Tool.mktemp` — what is known of files.
-/
import StyleTokens.Shell.Tool.Line
import StyleTokens.Shell.Tool.Mode

namespace StyleTokens.Shell.Tool

/-! Paths -/

/-- What a path leads to. -/
def lookAt (followLast : Bool) (path : String) : Tool (Except IoCause (Option Place × Entry)) := do
  let call ← read
  look fun world => world.entryAt call.id call.here followLast path

/-- Whether a path leads somewhere, or to a link. -/
def isThere (path : String) : Tool Bool := do
  return (← lookAt false path).toOption.isSome

/-- A change of the tree. -/
def edit (change : Disk → Except IoCause Disk) : Tool (Except IoCause Unit) := do
  let here := (← read).here
  update fun world => world.edit here change

/-- A path without the slashes at its end. -/
def trimmed (path : String) : String :=
  let rest := path.toList.reverse.dropWhile (· = '/')
  if rest.isEmpty then (if path.isEmpty then "" else "/") else String.ofList rest.reverse

/-- The last name of a path. -/
def lastName (path : String) : String :=
  let text := trimmed path
  if text = "/" then "/" else ((text.splitOn "/").getLast?).getD text

/-- A path with one more name. -/
def below (path name : String) : String :=
  if path.endsWith "/" then path ++ name else path ++ "/" ++ name

/-- The names in a directory, in order. -/
def entriesOf (place : Place) : Tool (List String) := do
  let names ← look fun world => world.disk.entries.filterMap fun (other, _) =>
    if place.isPrefixOf other && other.length = place.length + 1 then other.getLast? else none
  return (names.map Octets.ofText).mergeSort (fun a b => decide (a ≤ b))

/-- Asks whether to go on; yes starts with a letter that says so. -/
def confirmed (question : String) : Tool Bool := do
  flush
  sayError ((← read).name ++ ": " ++ question)
  let rec answer : Nat → List Char → Tool (List Char)
    | 0, before => return before.reverse
    | fuel + 1, before => do
      match ← readSome 0 1 with
      | .ok data =>
        match Octets.ofBytes data with
        | [c] => if c = '\n' then return before.reverse else answer fuel (c :: before)
        | _ => return before.reverse
      | .error _ => return before.reverse
  let text ← answer 100000 []
  return text.head? = some 'y' || text.head? = some 'Y'

/-! Made and removed -/

/-- Sets the permissions of what a path leads to. -/
def setMode (path : String) (mode : Nat) : Tool Unit := do
  match ← lookAt true path with
  | .ok (some place, _) => act (Act.alter fun world => world.setMode place mode)
  | _ => return

/-- Makes a directory. -/
def makeDirectory (path : String) (mode : Option Nat) : Tool (Except IoCause Unit) := do
  let result ← edit fun disk => disk.makeDirectory (pathOf path)
  if let .ok _ := result then
    let mask := (← read).mask
    match mode with
    | some mode => setMode path mode
    | none => if mask ≠ 0o022 then setMode path (0o777 &&& (0o777 ^^^ mask))
  return result

/-- The starts of a path that end with a name, the shortest first. -/
def starts (path : String) : List String :=
  let pieces := path.splitOn "/"
  (List.range pieces.length).filterMap fun n =>
    if (pieces[n]?).getD "" = "" then none else some ("/".intercalate (pieces.take (n + 1)))

/-- Makes a directory and those that lead to it. -/
def makeAll (told : Bool) (mode : Option Nat) (path : String) : Tool Nat := do
  let all := starts path
  let last := (all.getLast?).getD path
  let rec go : List String → Tool Nat
    | [] => return 0
    | start :: rest => do
      match ← makeDirectory start (if start = last then mode else none) with
      | .ok _ =>
        if told then sayLine ("mkdir: created directory " ++ Naming.always start)
        go rest
      | .error cause =>
        if ← isDirectory start then go rest
        else
          let isFile := cause = .alreadyExists && !rest.isEmpty
          let reason := reasonOf (if isFile then .notDirectory else cause)
          warn ("cannot create directory " ++ Naming.always start ++ ": " ++ reason)
          return 1
  if path.isEmpty then
    warn "cannot create directory '': No such file or directory"
    return 1
  go all

/-- The mode that the options ask for. -/
def askedMode (line : Line) (usual : Nat) : Tool (Option Nat) := do
  match line.last? "m" with
  | none => return none
  | some text =>
    match Mode.change? (← read).mask true text usual with
    | some mode => return some mode
    | none => fail 1 ("invalid mode " ++ Naming.marked text)

/-- Makes directories. -/
def mkdir : Tool Nat := do
  let line ← line {
    letters := "pm:vZ"
    names := [("parents", .nothing, "p"), ("mode", .value, "m"), ("verbose", .nothing, "v")] } 1
  if line.operands.isEmpty then misuse 1 "missing operand"
  let mode ← askedMode line (0o777 &&& (0o777 ^^^ (← read).mask))
  forAll line.operands fun operand => do
    if line.has "p" then return ← makeAll (line.has "v") mode operand
    match ← makeDirectory operand mode with
    | .ok _ =>
      if line.has "v" then sayLine ("mkdir: created directory " ++ Naming.always operand)
      return 0
    | .error cause =>
      warn ("cannot create directory " ++ Naming.always operand ++ ": " ++ reasonOf cause)
      return 1

/-- Removes an empty directory. -/
def removeEmpty (path : String) : Tool (Except IoCause Unit) := do
  match ← lookAt false path with
  | .error cause => return .error cause
  | .ok (some place, .directory) =>
    if !(← entriesOf place).isEmpty then return .error .notEmpty
    if place = (← read).here && lastName path = "." then return .error (.other "Invalid argument")
    act (Act.alter fun world => world.unlink place)
    return .ok ()
  | .ok _ => return .error .notDirectory

/-- Removes empty directories. -/
def rmdir : Tool Nat := do
  let line ← line {
    letters := "pv"
    names := [
      ("parents", .nothing, "p"), ("verbose", .nothing, "v"),
      ("ignore-fail-on-non-empty", .nothing, "i")] } 1
  if line.operands.isEmpty then misuse 1 "missing operand"
  let remove := fun (path word : String) => do
    if line.has "v" then sayLine ("rmdir: removing directory, " ++ Naming.always path)
    match ← removeEmpty path with
    | .ok _ => return some 0
    | .error cause =>
      if cause = .notEmpty && line.has "i" then return none
      warn ("failed to remove " ++ word ++ Naming.always path ++ ": " ++ reasonOf cause)
      return some 1
  forAll line.operands fun operand => do
    match ← remove operand "" with
    | some 0 =>
      if !line.has "p" then return 0
      let above := ((starts (trimmed operand)).dropLast).reverse
      above.foldlM (fun status path => do
        if status ≠ 0 then return status
        return (← remove path "directory ").getD 0) 0
    | status => return status.getD 0

/-- How files are removed. -/
structure Removing where
  forced : Bool
  whole : Bool
  empty : Bool
  told : Bool
  asks : Bool
  deriving Inhabited

/-- Removes what is at a place, and all below it; with the path as it is shown. -/
def removeAt (removing : Removing) : (fuel : Nat) → Place → Entry → String → Tool Nat
  | 0, _, _, _ => return 1
  | fuel + 1, place, entry, path => do
    if entry.isDirectory then
      let mut status := 0
      let names ← entriesOf place
      if removing.asks && !names.isEmpty then
        if !(← confirmed ("descend into directory " ++ Naming.always path ++ "? ")) then return 0
      for name in names do
        let inner := place ++ [Octets.toText name]
        match ← look fun world => world.disk.entry? inner with
        | some entry =>
          status := max status (← removeAt removing fuel inner entry (below path name))
        | none => pure ()
      if !(← entriesOf place).isEmpty then return status
      if removing.asks then
        if !(← confirmed ("remove directory " ++ Naming.always path ++ "? ")) then return status
      act (Act.alter fun world => world.unlink place)
      if removing.told then sayLine ("removed directory " ++ Naming.always path)
      return status
    else
      if removing.asks then
        let size ← look fun world => ((world.data? (.file place)).map ByteArray.size).getD 0
        let kind :=
          match entry with
          | .link _ => "symbolic link "
          | .device _ => "character special file "
          | _ => if size = 0 then "regular empty file " else "regular file "
        if !(← confirmed ("remove " ++ kind ++ Naming.always path ++ "? ")) then return 0
      act (Act.alter fun world => world.unlink place)
      if removing.told then sayLine ("removed " ++ Naming.always path)
      return 0

/-- Removes files and, if asked to, directories. -/
def rm : Tool Nat := do
  let line ← line {
    letters := "dfirRvI"
    names := [
      ("force", .nothing, "f"), ("recursive", .nothing, "r"), ("dir", .nothing, "d"),
      ("verbose", .nothing, "v"), ("interactive", .optional, "i"),
      ("no-preserve-root", .nothing, "root"), ("preserve-root", .optional, "keep"),
      ("one-file-system", .nothing, "one")] } 1
  let lastAsks := (line.options.reverse.find? fun (name, _) => name = "i" || name = "f").any (·.1 = "i")
  let removing : Removing := {
    forced := line.has "f", whole := line.has "r" || line.has "R", empty := line.has "d"
    told := line.has "v", asks := lastAsks }
  if line.operands.isEmpty then if removing.forced then return 0 else misuse 1 "missing operand"
  forAll line.operands fun operand => do
    let refuse := fun (reason : String) => do
      warn ("cannot remove " ++ Naming.always operand ++ ": " ++ reason)
      return 1
    match ← lookAt false operand with
    | .error cause =>
      if removing.forced && (cause = .notFound || cause = .notDirectory) then return 0
      refuse (reasonOf cause)
    | .ok (some place, .directory) =>
      let name := lastName operand
      if removing.whole && (name = "." || name = "..") then
        warn ("refusing to remove '.' or '..' directory: skipping " ++ Naming.always operand)
        return 1
      if removing.whole && place = [] then
        warn "it is dangerous to operate recursively on '/'"
        warn "use --no-preserve-root to override this failsafe"
        return 1
      if removing.whole then removeAt removing 1000 place .directory (trimmed operand)
      else if !removing.empty then refuse "Is a directory"
      else if !(← entriesOf place).isEmpty then refuse "Directory not empty"
      else removeAt removing 2 place .directory operand
    | .ok (some place, entry) => removeAt removing 2 place entry operand
    | .ok (none, _) => refuse "Permission denied"

/-- Makes files, or notes that they changed. -/
def touch : Tool Nat := do
  let line ← line {
    letters := "acd:fhmr:t:"
    names := [
      ("no-create", .nothing, "c"), ("date", .value, "d"), ("reference", .value, "r"),
      ("no-dereference", .nothing, "h"), ("time", .value, "time")] } 1
  let time ←
    match line.last? "r" with
    | some path =>
      match ← lookAt true path with
      | .ok (some place, _) => look fun world => some (world.traitsOf place).changed
      | .ok _ => pure none
      | .error cause =>
        fail 1 ("failed to get attributes of " ++ Naming.always path ++ ": " ++ reasonOf cause)
    | none => pure (if line.has "d" || line.has "t" then some 0 else none)
  if line.operands.isEmpty then misuse 1 "missing file operand"
  let mask := (← read).mask
  forAll line.operands fun operand => do
    let note := do
      if let .ok (some place, _) ← lookAt true operand then
        act (Act.alter fun world =>
          match time with
          | some changed => world.changeTraits place fun traits => { traits with changed }
          | none => world.note place)
    match ← lookAt true operand with
    | .ok _ =>
      note
      return 0
    | .error cause =>
      if line.has "c" && (cause = .notFound || cause = .notDirectory) then return 0
      if operand.endsWith "/" && cause = .notFound then
        warn ("setting times of " ++ Naming.always operand ++ ": " ++ reasonOf cause)
        return 1
      match ← openFile operand { writes := true, creates := true, mask } with
      | .ok stream =>
        close stream
        note
        return 0
      | .error cause =>
        warn ("cannot touch " ++ Naming.always operand ++ ": " ++ reasonOf cause)
        return 1

/-! Other places -/

/-- Where things go: into a directory, or to a path. -/
inductive Goal
  | into (directory : String)
  | onto (path : String)
  deriving Inhabited

/-- The path of a source at its goal. -/
def Goal.pathOf (source : String) : Goal → String
  | into directory => below directory (lastName source)
  | onto path => path

/-- The sources and the goal that operands and options tell. -/
def sourcesAndGoal (line : Line) (follows : Bool) : Tool (List String × Goal) := do
  match line.last? "t", line.operands with
  | some directory, operands =>
    if operands.isEmpty then misuse 1 "missing file operand"
    match ← lookAt true directory with
    | .ok (_, .directory) => return (operands, .into directory)
    | .ok _ => fail 1 ("target directory " ++ Naming.always directory ++ ": Not a directory")
    | .error cause =>
      fail 1 ("target directory " ++ Naming.always directory ++ ": " ++ reasonOf cause)
  | none, [] => misuse 1 "missing file operand"
  | none, [only] => misuse 1 ("missing destination file operand after " ++ Naming.always only)
  | none, operands =>
    let goal := (operands.getLast?).getD ""
    let sources := operands.dropLast
    if line.has "T" then
      if 1 < sources.length then
        misuse 1 ("extra operand " ++ Naming.always goal)
      return (sources, .onto goal)
    let found ← lookAt follows goal
    match found with
    | .ok (_, .directory) => return (sources, .into goal)
    | _ =>
      if sources.length = 1 then return (sources, .onto goal)
      let reason :=
        match found with
        | .error cause => reasonOf cause
        | .ok _ => "Not a directory"
      fail 1 ("target " ++ Naming.always goal ++ ": " ++ reason)

/-- Whether two places are those of the same file. -/
def areTwins (first second : Option Place) : Tool Bool :=
  match first, second with
  | some first, some second => look fun world => (world.names first).contains second
  | _, _ => return false

/-- Makes links. -/
def ln : Tool Nat := do
  let line ← line {
    letters := "bdfFinLPrsS:t:Tv"
    names := [
      ("symbolic", .nothing, "s"), ("force", .nothing, "f"), ("no-dereference", .nothing, "n"),
      ("verbose", .nothing, "v"), ("target-directory", .value, "t"),
      ("no-target-directory", .nothing, "T"), ("relative", .nothing, "r"),
      ("interactive", .nothing, "i")] } 1
  let soft := line.has "s"
  let (sources, goal) ←
    match line.operands, line.last? "t" with
    | [], none => misuse 1 "missing file operand"
    | [only], none => do
      if line.has "T" then
        misuse 1 ("missing destination file operand after " ++ Naming.always only)
      pure ([only], Goal.into ".")
    | _, _ => sourcesAndGoal line (!line.has "n")
  let kind := if soft then "symbolic link" else "hard link"
  forAll sources fun source => do
    let path := goal.pathOf source
    let shown :=
      match goal with
      | .into "." => if line.operands.length = 1 then lastName source else path
      | _ => path
    let origin ←
      if soft then pure (.ok (none, Entry.directory))
      else lookAt false source
    match origin with
    | .error cause =>
      warn ("failed to access " ++ Naming.always source ++ ": " ++ reasonOf cause)
      return 1
    | .ok (place, entry) =>
      if !soft && entry.isDirectory then
        warn (Naming.needed source ++ ": hard link not allowed for directory")
        return 1
      let old ← lookAt false path
      if line.has "f" then
        if let .ok (some other, entry) := old then
          if !soft && (← areTwins place (some other)) then
            warn (Naming.always source ++ " and " ++ Naming.always shown ++ " are the same file")
            return 1
          if !entry.isDirectory then act (Act.alter fun world => world.unlink other)
      let result ←
        if soft then edit fun disk => disk.link (pathOf path) (Octets.toText source)
        else
          let here := (← read).here
          update fun world =>
            match (world.diskFrom here).target false (pathOf path), place with
            | .ok (.absent parent name), some place =>
              (world.twin place (parent ++ [name]), Except.ok ())
            | .error cause, _ => (world, .error cause)
            | _, _ => (world, .error .alreadyExists)
      match result with
      | .ok _ =>
        if line.has "v" then
          sayLine (Naming.always shown ++ (if soft then " -> " else " => ") ++ Naming.always source)
        return 0
      | .error cause =>
        let tail := if !soft && cause ≠ .alreadyExists then " => " ++ Naming.always source else ""
        warn ("failed to create " ++ kind ++ " " ++ Naming.always shown ++ tail ++ ": " ++
          reasonOf cause)
        return 1

/-- How files are copied. -/
structure Copying where
  whole : Bool
  /-- Whether links are copied as links. -/
  links : Bool
  told : Bool
  /-- Whether nothing is put in the place of something else. -/
  keeps : Bool
  asks : Bool
  /-- Whether only newer files are copied. -/
  newer : Bool
  soft : Bool
  hard : Bool
  /-- Whether permissions are kept. -/
  exact : Bool
  forced : Bool
  deriving Inhabited

/-- Copies the data of a file to a path. -/
def copyData (copying : Copying) (source path : String) (mode : Option Nat) (isNew : Bool) :
    Tool Nat := do
  match ← contents source with
  | .error cause =>
    warn ("cannot open " ++ Naming.always source ++ " for reading: " ++ reasonOf cause)
    return 1
  | .ok data =>
    match ← openFile path { writes := true, creates := true, empties := true } with
    | .error cause =>
      let cause := if path.endsWith "/" && cause = .isDirectory then .notDirectory else cause
      warn ("cannot create regular file " ++ Naming.always path ++ ": " ++ reasonOf cause)
      return 1
    | .ok stream =>
      let result ← act (Act.write (← read).id stream data)
      close stream
      let mask := (← read).mask
      if let some mode := mode then
        if copying.exact then setMode path mode
        else if isNew then setMode path (mode &&& 0o777 &&& (0o777 ^^^ mask))
      match result with
      | .ok _ => return 0
      | .error cause =>
        warn ("error writing " ++ Naming.always path ++ ": " ++ reasonOf cause)
        return 1

/-- Copies what a path leads to; `top` is the goal of the whole copy, with the source
that it was made for. -/
def copyTo (copying : Copying) (top : Option (String × String × Place)) :
    (fuel : Nat) → (source path : String) → Tool Nat
  | 0, _, _ => return 1
  | fuel + 1, source, path => do
    match ← lookAt (!copying.links) source with
    | .error cause =>
      warn ("cannot stat " ++ Naming.always source ++ ": " ++ reasonOf cause)
      return 1
    | .ok (place, entry) =>
      if entry.isDirectory && !copying.whole then
        warn ("-r not specified; omitting directory " ++ Naming.always source)
        return 1
      if let some (first, goal, made) := top then
        if place = some made then
          warn ("cannot copy a directory, " ++ Naming.always first ++ ", into itself, " ++
            Naming.always goal)
          return 1
      let isLink :=
        match entry with
        | .link _ => true
        | _ => false
      let old ← lookAt (!isLink) path
      let oldLink ← lookAt false path
      let tell := do
        if copying.told then
          sayLine (Naming.always source ++ " -> " ++ Naming.always path)
      let mode ← look fun world => place.map fun place => world.modeOf place entry
      match old with
      | .error cause =>
        if cause ≠ .notFound then
          warn ("cannot stat " ++ Naming.always path ++ ": " ++ reasonOf cause)
          return 1
        if oldLink.toOption.isSome && !entry.isDirectory && !isLink then
          warn ("not writing through dangling symlink " ++ Naming.always path)
          return 1
      | .ok (other, oldEntry) =>
        if (← areTwins place other) && !entry.isDirectory then
          if copying.keeps then return 0
          warn (Naming.always source ++ " and " ++ Naming.always path ++ " are the same file")
          return 1
        if entry.isDirectory && !oldEntry.isDirectory then
          warn ("cannot overwrite non-directory " ++ Naming.always path ++ " with directory " ++
            Naming.always source)
          return 1
        if !entry.isDirectory && oldEntry.isDirectory then
          warn ("cannot overwrite directory " ++ Naming.always path ++ " with non-directory")
          return 1
        if !entry.isDirectory then
          if copying.keeps then return 0
          if copying.newer then
            let older ← look fun world =>
              let time := fun (place : Option Place) =>
                (place.map fun place => (world.traitsOf place).changed).getD 0
              decide (time place ≤ time other)
            if older then return 0
          if copying.asks then
            if !(← confirmed ("overwrite " ++ Naming.always path ++ "? ")) then return 1
      match entry with
      | .directory =>
        let isNew := old.toOption.isNone
        if isNew then
          match ← makeDirectory path none with
          | .ok _ => tell
          | .error cause =>
            warn ("cannot create directory " ++ Naming.always path ++ ": " ++ reasonOf cause)
            return 1
        let made ← lookAt true path
        let top :=
          match top, made with
          | some top, _ => some top
          | none, .ok (some made, _) => some (source, path, made)
          | none, _ => none
        let names ←
          match place with
          | some place => entriesOf place
          | none => pure []
        let status ← forAll names fun name =>
          copyTo { copying with links := copying.links } top fuel (below source name) (below path name)
        if isNew then
          if let some mode := mode then
            let mask := (← read).mask
            if copying.exact then setMode path mode
            else if mode ≠ 0o755 then setMode path (mode &&& 0o777 &&& (0o777 ^^^ mask))
        return status
      | .link target =>
        if let .ok (some other, _) := oldLink then
          act (Act.alter fun world => world.unlink other)
        match ← edit fun disk => disk.link (pathOf path) target with
        | .ok _ =>
          tell
          return 0
        | .error cause =>
          warn ("cannot create symbolic link " ++ Naming.always path ++ ": " ++ reasonOf cause)
          return 1
      | _ =>
        if copying.soft || copying.hard then
          if let .ok (some other, _) := oldLink then
            if copying.forced then act (Act.alter fun world => world.unlink other)
          let here := (← read).here
          let result ←
            if copying.soft then edit fun disk => disk.link (pathOf path) (Octets.toText source)
            else update fun world =>
              match (world.diskFrom here).target false (pathOf path), place with
              | .ok (.absent parent name), some place =>
                (world.twin place (parent ++ [name]), Except.ok ())
              | .error cause, _ => (world, .error cause)
              | _, _ => (world, .error .alreadyExists)
          match result with
          | .ok _ =>
            tell
            return 0
          | .error cause =>
            let kind := if copying.soft then "symbolic link " else "hard link "
            warn ("cannot create " ++ kind ++ Naming.always path ++
              (if copying.soft then "" else " to " ++ Naming.always source) ++ ": " ++ reasonOf cause)
            return 1
        tell
        copyData copying source path mode old.toOption.isNone

/-- Copies files. -/
def cp : Tool Nat := do
  let line ← line {
    letters := "abdfHilLnprRsS:t:TuvxPZ"
    names := [
      ("archive", .nothing, "a"), ("force", .nothing, "f"), ("interactive", .nothing, "i"),
      ("link", .nothing, "l"), ("dereference", .nothing, "L"), ("no-clobber", .nothing, "n"),
      ("no-dereference", .nothing, "P"), ("preserve", .optional, "p"), ("recursive", .nothing, "r"),
      ("symbolic-link", .nothing, "s"), ("target-directory", .value, "t"),
      ("no-target-directory", .nothing, "T"), ("update", .optional, "u"), ("verbose", .nothing, "v"),
      ("parents", .nothing, "parents"), ("remove-destination", .nothing, "remove")] } 1
  if line.has "n" then
    warn ("warning: behavior of -n is non-portable and may change in future; " ++
      "use --update=none instead")
  let (sources, goal) ← sourcesAndGoal line true
  let whole := line.has "r" || line.has "R" || line.has "a"
  let copying : Copying := {
    whole
    links := !line.has "L" && (whole || line.has "P" || line.has "d") && !line.has "H"
    told := line.has "v", keeps := line.has "n" || line.last? "u" = some "none"
    asks := line.has "i" && !line.has "n", newer := line.has "u", soft := line.has "s"
    hard := line.has "l", exact := line.has "p" || line.has "a", forced := line.has "f" }
  let parents := line.has "parents"
  if parents then
    if let .onto _ := goal then
      misuse 1 "with --parents, the destination must be a directory"
  let (_, status) ← sources.foldlM (fun (done, status) source => do
    if done.contains (trimmed source) && !parents then
      let isDirectory ← isDirectory source
      warn ("warning: source " ++ (if isDirectory then "directory " else "file ") ++
        Naming.always source ++ " specified more than once")
      return (done, status)
    let path :=
      match parents, goal with
      | true, .into directory => below directory source
      | _, _ => goal.pathOf source
    if parents then
      if let .into directory := goal then
        for start in (starts source).dropLast do
          if !(← isDirectory (below directory start)) then
            discard (makeDirectory (below directory start) none)
    let result ← copyTo copying none 1000 source path
    return (trimmed source :: done, max status result)) (([] : List String), 0)
  return status

/-- Moves one file. -/
def moveTo (line : Line) (source path : String) : Tool Nat := do
  match ← lookAt false source with
  | .error cause =>
    warn ("cannot stat " ++ Naming.always source ++ ": " ++ reasonOf cause)
    return 1
  | .ok (none, _) =>
    warn ("cannot move " ++ Naming.always source ++ " to " ++ Naming.always path ++
      ": Operation not permitted")
    return 1
  | .ok (some place, entry) =>
    let names := fun (reason : String) => do
      warn ("cannot move " ++ Naming.always source ++ " to " ++ Naming.always path ++ reason)
      return 1
    let old ← lookAt false path
    match old with
    | .ok (other, oldEntry) =>
      if (← areTwins (some place) other) && !entry.isDirectory then
        warn (Naming.always source ++ " and " ++ Naming.always path ++ " are the same file")
        return 1
      if line.has "n" then
        warn ("not replacing " ++ Naming.always path)
        return 1
      if line.has "u" then
        let older ← look fun world =>
          decide ((world.traitsOf place).changed ≤
            (other.map fun other => (world.traitsOf other).changed).getD 0)
        if older then return 0
      if entry.isDirectory && !oldEntry.isDirectory then
        warn ("cannot overwrite non-directory " ++ Naming.always path ++ " with directory " ++
          Naming.always source)
        return 1
      if !entry.isDirectory && oldEntry.isDirectory then
        warn ("cannot overwrite directory " ++ Naming.always path ++ " with non-directory")
        return 1
      if line.has "i" && !line.has "f" then
        if !(← confirmed ("overwrite " ++ Naming.always path ++ "? ")) then return 1
    | .error _ => pure ()
    let last := lastName source
    if last = "." || last = ".." then return ← names ": Device or resource busy"
    let here := (← read).here
    let found ← look fun world =>
      let goal := if entry.isDirectory then Disk.withoutSlashes (pathOf path) else pathOf path
      (world.diskFrom here).target false goal
    match found with
    | .error cause =>
      names (": " ++ reasonOf (if cause = .isDirectory then .notDirectory else cause))
    | .ok found =>
      let goal :=
        match found with
        | .at other _ => other
        | .absent parent name => parent ++ [name]
      if entry.isDirectory && place.isPrefixOf goal then
        warn ("cannot move " ++ Naming.always source ++ " to a subdirectory of itself, " ++
          Naming.always path)
        return 1
      if let .at other .directory := found then
        if !(← entriesOf other).isEmpty then
          warn ("cannot overwrite " ++ Naming.always path ++ ": Directory not empty")
          return 1
      act (Act.alter fun world => world.rename place goal)
      if line.has "v" then
        sayLine ("renamed " ++ Naming.always source ++ " -> " ++ Naming.always path)
      return 0

/-- Moves files. -/
def mv : Tool Nat := do
  let line ← line {
    letters := "bfint:uvTS:Z"
    names := [
      ("force", .nothing, "f"), ("interactive", .nothing, "i"), ("no-clobber", .nothing, "n"),
      ("target-directory", .value, "t"), ("no-target-directory", .nothing, "T"),
      ("update", .optional, "u"), ("verbose", .nothing, "v"),
      ("strip-trailing-slashes", .nothing, "strip")] } 1
  let (sources, goal) ← sourcesAndGoal line true
  forAll sources fun source => moveTo line source (goal.pathOf source)

/-! What is known of files -/

/-- The kind of an entry as a letter. -/
def kindLetter : Entry → Char
  | .file _ => '-'
  | .directory => 'd'
  | .device _ => 'c'
  | .link _ => 'l'

/-- The permissions of what a path leads to. -/
def modeAt (place : Option Place) (entry : Entry) : Tool Nat :=
  look fun world => (place.map fun place => world.modeOf place entry).getD 0o600

/-- Changes the permissions of files. -/
def chmod : Tool Nat := do
  let spelled := fun (arguments : List String) => arguments.map fun argument =>
    match argument.toList with
    | '-' :: c :: _ => if "rwxXstugoa=+,".toList.contains c then "\x00" ++ argument else argument
    | _ => argument
  calling (fun call => { call with arguments := spelled call.arguments }) do
    let line ← line {
      letters := "Rcfv"
      names := [
        ("recursive", .nothing, "R"), ("verbose", .nothing, "v"), ("changes", .nothing, "c"),
        ("quiet", .nothing, "f"), ("silent", .nothing, "f"), ("reference", .value, "reference")] } 1
    let plain := fun (text : String) =>
      match text.toList with
      | '\x00' :: rest => String.ofList rest
      | _ => text
    let operands := line.operands.map plain
    match operands with
    | [] => misuse 1 "missing operand"
    | [mode] => misuse 1 ("missing operand after " ++ Naming.marked mode)
    | mode :: paths =>
      let mask := (← read).mask
      if (Mode.change? mask false mode 0).isNone then
        misuse 1 ("invalid mode: " ++ Naming.marked mode)
      let rec go : Nat → String → Tool Nat
        | 0, _ => return 1
        | fuel + 1, path => do
          match ← lookAt true path with
          | .error cause =>
            if !line.has "f" then
              if (← lookAt false path).toOption.isSome then
                warn ("cannot operate on dangling symlink " ++ Naming.always path)
              else warn ("cannot access " ++ Naming.always path ++ ": " ++ reasonOf cause)
            return 1
          | .ok (place, entry) =>
            let old ← modeAt place entry
            let new := (Mode.change? mask entry.isDirectory mode old).getD old
            if let some place := place then act (Act.alter fun world => world.setMode place new)
            let shown := fun (mode : Nat) =>
              Mode.digits 4 mode ++ " (" ++ Mode.shown mode ++ ")"
            if line.has "v" || (line.has "c" && old ≠ new) then
              if old = new then
                sayLine ("mode of " ++ Naming.always path ++ " retained as " ++ shown old)
              else
                sayLine ("mode of " ++ Naming.always path ++ " changed from " ++ shown old ++ " to " ++
                  shown new)
            match line.has "R", place, entry with
            | true, some place, .directory =>
              let names ← entriesOf place
              forAll names fun name => do
                match ← lookAt false (below path name) with
                | .ok (_, .link _) => return 0
                | _ => go fuel (below path name)
            | _, _, _ => return 0
      forAll paths (go 1000)

/-- Sets the size of files. -/
def truncate : Tool Nat := do
  let line ← line {
    letters := "cor:s:"
    names := [
      ("no-create", .nothing, "c"), ("reference", .value, "r"), ("size", .value, "s"),
      ("io-blocks", .nothing, "o")] } 1
  let reference ← (line.last? "r").mapM fun path => do
    match ← contents path with
    | .ok data => return data.size
    | .error cause => fail 1 ("cannot stat " ++ Naming.always path ++ ": " ++ reasonOf cause)
  if (line.last? "s").isNone && reference.isNone then
    misuse 1 "you must specify either '--size' or '--reference'"
  let text := ((line.last? "s").getD "+0").toList.dropWhile (· = ' ')
  let (sign, body) : Char × List Char :=
    match text with
    | c :: rest => if "+-<>/%".toList.contains c then (c, rest) else ('=', text)
    | [] => ('=', [])
  let size ←
    match Number.sized? body with
    | some n => pure n
    | none => fail 1 ("Invalid number: " ++ Naming.marked (String.ofList text))
  if line.operands.isEmpty then misuse 1 "missing file operand"
  let mask := (← read).mask
  forAll line.operands fun operand => do
    if line.has "c" && !(← isThere operand) then return 0
    match ← openFile operand { reads := true, writes := true, creates := true, mask } with
    | .error cause =>
      warn ("cannot open " ++ Naming.always operand ++ " for writing: " ++ reasonOf cause)
      return 1
    | .ok stream =>
      let id := (← read).id
      act (Act.alter fun world =>
        match world.stream? id stream with
        | some (_, file) =>
          let old := (world.data? file.target).getD .empty
          let base := reference.getD old.size
          let goal :=
            match sign with
            | '+' => base + size
            | '-' => base - size
            | '<' => min base size
            | '>' => max base size
            | '/' => base / size * size
            | '%' => (base + size - 1) / size * size
            | _ => size
          let zeros : List UInt8 := List.replicate (goal - old.size) 0
          let data := old.extract 0 goal ++ ⟨zeros.toArray⟩
          world.setTarget file.target data
        | none => world)
      close stream
      return 0

/-- Signs of the names that are made up. -/
def randomSigns : List Char :=
  "abcdefghijklmnopqrstuvwxyzABCDEFGHIJKLMNOPQRSTUVWXYZ0123456789".toList

/-- So many signs made from a number. -/
def randomName : (count : Nat) → (seed : Nat) → List Char
  | 0, _ => []
  | count + 1, seed =>
    let next := (seed * 6364136223846793005 + 1442695040888963407) % 0x10000000000000000
    (randomSigns[next / 0x100000000 % 62]?).getD 'x' :: randomName count next

/-- Makes a file or a directory with a name of its own. -/
def mktemp : Tool Nat := do
  let line ← line {
    letters := "dqup:tV"
    names := [
      ("directory", .nothing, "d"), ("quiet", .nothing, "q"), ("dry-run", .nothing, "u"),
      ("suffix", .value, "suffix"), ("tmpdir", .optional, "p")] } 1
  if 1 < line.operands.length then misuse 1 "too many templates"
  let template := (line.operands[0]?).getD "tmp.XXXXXXXXXX"
  let directory := ((read : Tool Call) >>= fun call =>
    pure ((call.environment.lookup "TMPDIR").getD "/tmp"))
  let base ←
    if line.operands.isEmpty || line.has "p" || line.has "t" then
      match line.last? "p" with
      | some path => pure (below path template)
      | none => do pure (below (← directory) template)
    else pure template
  let signs := base.toList.reverse
  let tail :=
    match line.last? "suffix" with
    | some text => text.toList.reverse
    | none => signs.takeWhile (· ≠ 'X')
  let body := if line.has "suffix" then signs else signs.drop tail.length
  let count := (body.takeWhile (· = 'X')).length
  if count < 3 then fail 1 ("too few X's in template " ++ Naming.marked template)
  let seed ← update fun world => ({ world with fresh := world.fresh + 1 }, world.fresh)
  let name := String.ofList ((body.drop count).reverse ++ randomName count (seed + 7919) ++ tail.reverse)
  let result ←
    if line.has "u" then pure (.ok ())
    else if line.has "d" then makeDirectory name (some 0o700)
    else
      match ← openFile name { writes := true, creates := true, exclusive := true, mask := 0o177 } with
      | .ok stream => close stream; pure (.ok ())
      | .error cause => pure (.error cause)
  match result with
  | .ok _ =>
    sayLine name
    return 0
  | .error cause =>
    let kind := if line.has "d" then "directory" else "file"
    if !line.has "q" then
      warn ("failed to create " ++ kind ++ " via template " ++ Naming.marked base ++ ": " ++
        reasonOf cause)
    return 1

end StyleTokens.Shell.Tool

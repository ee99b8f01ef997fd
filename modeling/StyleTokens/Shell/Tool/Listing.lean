/-
Programs that show what there is.

* `Tool.ls` — names in directories;
* `Tool.stat` — what is known of files.
-/
import StyleTokens.Shell.Tool.File
import StyleTokens.Shell.Tool.Sort

namespace StyleTokens.Shell.Tool

/-- A name that is listed, with what it leads to. -/
structure Listed where
  name : String
  place : Option Place
  entry : Entry
  /-- What a link leads to, if anything. -/
  goal : Option Entry := none
  mode : Nat
  changed : Nat
  links : Nat
  deriving Inhabited

/-- The number of names of a file, or of directories that lead to one. -/
def linksOf (world : World) (place : Place) : Entry → Nat
  | .directory =>
    2 + (world.disk.entries.filter fun (other, entry) =>
      entry.isDirectory && place.isPrefixOf other && other.length = place.length + 1).length
  | _ => (world.names place).length

/-- What a path leads to, under a name. -/
def listed (followLast : Bool) (path name : String) : Tool (Except IoCause Listed) := do
  let found ← lookAt followLast path
  let goal := (← lookAt true path).toOption.map (·.2)
  match found with
  | .error cause => return .error cause
  | .ok (place, entry) =>
    let mode ← modeAt place entry
    look fun world => .ok {
      name, place, entry, goal, mode
      changed := (place.map fun place => (world.traitsOf place).changed).getD 0
      links := (place.map fun place => linksOf world place entry).getD 1 }

/-- The size of what is listed. -/
def Listed.size (item : Listed) : Nat :=
  match item.entry with
  | .file data => data.size
  | .directory => 4096
  | .link target => target.utf8ByteSize
  | .device _ => 0

/-- Blocks of a thousand bytes that a file takes. -/
def Listed.blocks (item : Listed) : Nat :=
  match item.entry with
  | .file data => (data.size + 4095) / 4096 * 4
  | .directory => 4
  | _ => 0

/-- How names are listed. -/
structure Layout where
  options : List String
  /-- Signs that tell the kinds of files. -/
  marks : List Char
  width : Nat

/-- Whether an option was given. -/
def Layout.has (showing : Layout) (name : String) : Bool :=
  showing.options.contains name

/-- A name as it is shown. -/
def Layout.text (showing : Layout) (name : String) : String :=
  if showing.has "Q" then
    let sign := fun (c : Char) =>
      if c = '"' || c = '\\' then ['\\', c] else if Naming.isShown c then [c] else Naming.escape c
    "\"" ++ String.ofList (name.toList.flatMap sign) ++ "\""
  else if showing.has "b" then
    let sign := fun (c : Char) =>
      if c = ' ' || c = '\\' then ['\\', c] else if Naming.isShown c then [c] else Naming.escape c
    String.ofList (name.toList.flatMap sign)
  else if showing.has "q" then
    String.ofList (name.toList.map fun c => if Naming.isShown c then c else '?')
  else name

/-- The sign behind a name that tells its kind. -/
def Layout.mark (showing : Layout) (mode : Nat) (entry : Entry) : String :=
  let sign :=
    match entry with
    | .directory => '/'
    | .link _ => '@'
    | .file _ => if mode &&& 0o111 ≠ 0 then '*' else ' '
    | .device _ => ' '
  if sign ≠ ' ' && showing.marks.contains sign then String.singleton sign else ""

/-- A name with its mark. -/
def Layout.marked (showing : Layout) (item : Listed) : String :=
  showing.text item.name ++ showing.mark item.mode item.entry

/-- The order of a list. -/
def Layout.sorted (showing : Layout) (items : List Listed) : List Listed :=
  let byName := items.mergeSort fun a b => decide (a.name ≤ b.name)
  let extension := fun (item : Listed) =>
    let parts := item.name.splitOn "."
    if parts.length < 2 then "" else (parts.getLast?).getD ""
  let version := fun (item : Listed) => item.name.toList
  let ordered :=
    if showing.has "U" then items
    else if showing.has "t" then byName.mergeSort fun a b => decide (b.changed ≤ a.changed)
    else if showing.has "S" then byName.mergeSort fun a b => decide (b.size ≤ a.size)
    else if showing.has "X" then byName.mergeSort fun a b => decide (extension a ≤ extension b)
    else if showing.has "v" then
      byName.mergeSort fun a b =>
        compareVersions (a.name.length + b.name.length + 1) (version a) (version b) ≠ .gt
    else byName
  let ordered := if showing.has "r" && !showing.has "U" then ordered.reverse else ordered
  if showing.has "group" then
    let isFirst := fun (item : Listed) => item.entry.isDirectory || item.goal.any Entry.isDirectory
    ordered.filter isFirst ++ ordered.filter (!isFirst ·)
  else ordered

/-- A size as it is shown. -/
def Layout.sizeText (showing : Layout) (n : Nat) : String :=
  if !showing.has "h" then toString n
  else
    let rec scale : Nat → Nat → List Char → Option (Nat × Char)
      | _, _, [] => none
      | n, unit, letter :: rest =>
        if n < 1024 * unit then some (unit, letter) else scale n (unit * 1024) rest
    match scale n 1024 "KMGTPE".toList with
    | some (unit, letter) =>
      if n < 1024 then toString n
      else
        let tenths := (n * 10 + unit - 1) / unit
        if tenths < 100 then toString (tenths / 10) ++ "." ++ toString (tenths % 10) ++ String.singleton letter
        else toString ((n + unit - 1) / unit) ++ String.singleton letter
    | none => toString n

/-- Texts as wide as the widest of them. -/
def aligned (left : Bool) (texts : List String) : List String :=
  let width := (texts.map String.length).foldl max 0
  texts.map fun text =>
    let filling := String.ofList (List.replicate (width - text.length) ' ')
    if left then text ++ filling else filling ++ text

/-- Lines that tell all of the files. -/
def Layout.long (showing : Layout) (items : List Listed) : List String :=
  let numeric := showing.has "n"
  let person := if numeric then "0" else "root"
  let links := aligned false (items.map fun item => toString item.links)
  let sizes := aligned false (items.map fun item =>
    match item.entry with
    | .device _ => "1, 3"
    | _ => showing.sizeText item.size)
  let people := (if showing.has "g" then [] else [person]) ++ (if showing.has "o" then [] else [person])
  (items.zip (links.zip sizes)).map fun (item, links, size) =>
    let tail :=
      match item.entry with
      | .link target =>
        " -> " ++ showing.text (Octets.ofText target) ++
          ((item.goal.map fun goal =>
            if showing.marks.contains '*' then showing.mark 0 goal else "").getD "")
      | _ => ""
    let mark :=
      match item.entry with
      | .link _ => ""
      | _ => showing.mark item.mode item.entry
    " ".intercalate ([String.singleton (kindLetter item.entry) ++ Mode.shown item.mode, links] ++ people ++
      [size, "Jan  1 00:00", showing.text item.name ++ mark ++ tail])

/-- The widths of columns that hold texts, if they fit. -/
def columnWidths (width : Nat) (across : Bool) (texts : List String) (columns : Nat) :
    Option (List Nat) :=
  let count := texts.length
  let rows := (count + columns - 1) / columns
  let column := fun (n : Nat) => if across then n % columns else n / rows
  let widths := (List.range columns).map fun c =>
    (texts.zip (List.range count)).foldl (fun widest (text, n) =>
      if column n = c then max widest (text.length + if c + 1 = columns then 0 else 2) else widest) 3
  if widths.foldl (· + ·) 0 < width then some widths else none

/-- Blanks and tabs from one column to another. -/
def gap : (fuel : Nat) → (start goal : Nat) → List Char
  | 0, _, _ => []
  | fuel + 1, start, goal =>
    if goal ≤ start then []
    else if (start + 1) / 8 < goal / 8 then '\t' :: gap fuel (start / 8 * 8 + 8) goal
    else ' ' :: gap fuel (start + 1) goal

/-- Texts in columns. -/
def inColumns (width : Nat) (across : Bool) (texts : List String) : List String :=
  let count := texts.length
  if count = 0 then []
  else
    let most := max 1 (min count (width / 3))
    let choices := ((List.range most).map (· + 1)).reverse
    let found := choices.findSome? fun columns =>
      (columnWidths width across texts columns).map fun widths => (columns, widths)
    let (columns, widths) := found.getD (1, [0])
    let rows := (count + columns - 1) / columns
    (List.range rows).map fun row =>
      let cells := (List.range columns).filterMap fun c =>
        let n := if across then row * columns + c else c * rows + row
        (texts[n]?).map fun text => (c, text)
      let (_, _, line) := cells.foldl (fun (position, start, line) (c, text) =>
        let line := line ++ gap 200 position start ++ text.toList
        (start + text.length, start + (widths[c]?).getD 0, line)) (0, 0, ([] : List Char))
      String.ofList line

/-- Shows a list. -/
def Layout.show (showing : Layout) (items : List Listed) : Tool Unit := do
  if showing.has "l" then
    for line in showing.long items do
      sayLine line
  else
    let prefixed := fun (item : Listed) =>
      (if showing.has "i" then toString (1000 + item.changed) ++ " " else "") ++
        (if showing.has "s" then toString item.blocks ++ " " else "") ++ showing.marked item
    let texts := items.map prefixed
    if showing.has "m" then
      if !texts.isEmpty then sayLine (", ".intercalate texts)
    else if showing.has "C" || showing.has "x" then
      for line in inColumns showing.width (showing.has "x") texts do
        sayLine line
    else
      for text in texts do
        sayLine text

/-- The names of what is in a directory. -/
def Layout.namesIn (showing : Layout) (place : Place) : Tool (List String) := do
  let names ← entriesOf place
  let all := showing.has "a"
  let shown := names.filter fun name =>
    (all || showing.has "A" || !name.startsWith ".") && !(showing.has "B" && name.endsWith "~")
  return if all then "." :: ".." :: shown else shown

/-- Lists directories, each with a title if there are several, and those in them if they
are wanted. -/
def Layout.directories (showing : Layout) (titled : Bool) :
    (fuel : Nat) → (first : Bool) → List (String × Place) → Tool Unit
  | 0, _, _ => return
  | _, _, [] => return
  | fuel + 1, first, (path, place) :: rest => do
    if titled then say ((if first then "" else "\n") ++ showing.text path ++ ":\n")
    let items ← (← showing.namesIn place).filterMapM fun name => do
      return (← listed (showing.has "L") (below path name) name).toOption
    let items := showing.sorted items
    if showing.has "l" || showing.has "s" then
      let total := (items.map Listed.blocks).foldl (· + ·) 0
      let text := if showing.has "h" then showing.sizeText (total * 1024) else toString total
      sayLine ("total " ++ (if showing.has "h" && total = 0 then "0" else text))
    showing.show items
    let inner :=
      if showing.has "R" then items.filterMap fun item =>
        match item.entry, item.place with
        | .directory, some place =>
          if item.name = "." || item.name = ".." then none else some (below path item.name, place)
        | _, _ => none
      else []
    Layout.directories showing titled fuel false (inner ++ rest)

/-- Lists directories. -/
def ls : Tool Nat := do
  let table : OptionTable := {
    letters := "abBcCdDfFgGhHiI:klLmnNopqQrRsStT:uUvw:xXZ1A"
    names := [
      ("all", .nothing, "a"), ("almost-all", .nothing, "A"), ("directory", .nothing, "d"),
      ("classify", .optional, "F"), ("human-readable", .nothing, "h"), ("inode", .nothing, "i"),
      ("reverse", .nothing, "r"), ("recursive", .nothing, "R"), ("size", .nothing, "s"),
      ("quote-name", .nothing, "Q"), ("escape", .nothing, "b"), ("ignore-backups", .nothing, "B"),
      ("dereference", .nothing, "L"), ("numeric-uid-gid", .nothing, "n"), ("color", .optional, "color"),
      ("group-directories-first", .nothing, "group"), ("hide-control-chars", .nothing, "q"),
      ("ignore", .value, "I"), ("no-group", .nothing, "G"), ("width", .value, "w"),
      ("file-type", .nothing, "type"), ("literal", .nothing, "N")] }
  let line ← line table 2
  let names := line.options.map (·.1)
  let formOf := fun (name : String) => ["l", "C", "x", "m", "1", "n", "g", "o"].contains name
  let form := ((names.filter formOf).getLast?).getD "1"
  let isLong := ["l", "n", "g", "o"].contains form || (form = "1" && names.any ["l", "n", "g", "o"].contains)
  let sortOf := fun (name : String) => ["t", "S", "X", "v", "U", "f"].contains name
  let order := (names.filter sortOf).getLast?
  let options := (names.filter fun name => !formOf name && !sortOf name) ++ order.toList ++
    (names.filter fun name => name = "g" || name = "o" || name = "n") ++
    (if isLong then ["l"] else [form]) ++ (if names.contains "G" then ["o"] else []) ++
    (if names.contains "f" then ["a", "U"] else [])
  let hidesParents := ((names.filter fun name => name = "a" || name = "A").getLast?) = some "A"
  let options := if hidesParents then options.filter (· ≠ "a") else options
  let marks :=
    match (names.filter fun name => name = "F" || name = "p" || name = "type").getLast? with
    | some "F" => ['/', '@', '*']
    | some "p" => ['/']
    | some "type" => ['/', '@']
    | _ => []
  let width := ((line.last? "w").bind fun text => Number.natural? text.toList).getD 80
  let showing : Layout := { options, marks, width }
  let operands := if line.operands.isEmpty then ["."] else line.operands
  let whole := showing.has "d"
  let keepsLinks := whole || isLong || marks.contains '@'
  let (items, status) ← operands.foldlM (fun (items, status) operand => do
    let follows := showing.has "L" || showing.has "H" || !keepsLinks
    let found ← listed follows operand operand
    let plain ← listed false operand operand
    let found :=
      match found with
      | .ok item => Except.ok item
      | .error cause =>
        if follows && !showing.has "L" && plain.toOption.isSome then plain else .error cause
    match found with
    | .ok item => return (items ++ [item], status)
    | .error cause =>
      warn ("cannot access " ++ Naming.always operand ++ ": " ++ reasonOf cause)
      return (items, 2)) (([] : List Listed), 0)
  let isOpen := fun (item : Listed) => item.entry.isDirectory && !whole
  let files := showing.sorted (items.filter (!isOpen ·))
  let folders := showing.sorted (items.filter isOpen)
  showing.show files
  let pairs := folders.filterMap fun item => item.place.map fun place => (item.name, place)
  let titled := 1 < operands.length || showing.has "R"
  if !files.isEmpty && !pairs.isEmpty then say "\n"
  showing.directories titled 100000 true pairs
  return status

/-- The kind of an entry in words. -/
def kindText : Entry → String
  | .file data => if data.size = 0 then "regular empty file" else "regular file"
  | .directory => "directory"
  | .device _ => "character special file"
  | .link _ => "symbolic link"

/-- What a letter of a format of `stat` stands for. -/
def statValue (path : String) (item : Listed) : Char → String
  | 'n' => path
  | 'N' =>
    match item.entry with
    | .link target => Naming.always path ++ " -> " ++ Naming.always (Octets.ofText target)
    | _ => Naming.always path
  | 's' => toString item.size
  | 'F' => kindText item.entry
  | 'a' => Mode.digits 1 item.mode
  | 'A' => String.singleton (kindLetter item.entry) ++ Mode.shown item.mode
  | 'h' => toString item.links
  | 'U' | 'G' => "root"
  | 'b' => toString (item.blocks * 2)
  | 'B' => "512"
  | 'o' => "4096"
  | 'f' =>
    let kind :=
      match item.entry with
      | .file _ => 0o100000
      | .directory => 0o40000
      | .device _ => 0o20000
      | .link _ => 0o120000
    String.ofList (Nat.toDigits 16 (kind ||| item.mode))
  | 'u' | 'g' => "0"
  | '%' => "%"
  | c => if c.isAlpha then "0" else "?"

/-- A format of `stat` with its values; escapes are carried out if that is wanted. -/
def statText (escapes : Bool) (path : String) (item : Listed) : (fuel : Nat) → List Char → List Char
  | 0, _ => []
  | _, [] => []
  | fuel + 1, '%' :: rest =>
    let flags := rest.takeWhile "-+ #0123456789".toList.contains
    match rest.drop flags.length with
    | c :: after =>
      let value := (statValue path item c).toList
      let width := (Number.natural? (flags.dropWhile fun c => !c.isDigit || c = '0')).getD 0
      let filling := List.replicate (width - value.length) (if flags.head? = some '0' then '0' else ' ')
      (if flags.contains '-' then value ++ filling else filling ++ value) ++
        statText escapes path item fuel after
    | [] => ['%']
  | fuel + 1, '\\' :: rest =>
    if escapes then
      let (signs, rest) := escapeAfter false rest
      signs ++ statText escapes path item fuel rest
    else '\\' :: statText escapes path item fuel rest
  | fuel + 1, c :: rest => c :: statText escapes path item fuel rest

/-- Shows what is known of files. -/
def stat : Tool Nat := do
  let line ← line {
    letters := "c:fLt"
    names := [
      ("dereference", .nothing, "L"), ("format", .value, "c"), ("printf", .value, "printf"),
      ("file-system", .nothing, "f"), ("terse", .nothing, "t")] } 1
  if line.operands.isEmpty then misuse 1 "missing operand"
  forAll line.operands fun operand => do
    let path := if operand = "-" then "/dev/stdin" else operand
    match ← listed (line.has "L") path operand with
    | .error cause =>
      warn ("cannot statx " ++ Naming.always operand ++ ": " ++ reasonOf cause)
      return 1
    | .ok item =>
      match line.last? "printf", line.last? "c" with
      | some format, _ => put (statText true operand item format.length format.toList)
      | none, some format => put (statText false operand item format.length format.toList ++ ['\n'])
      | none, none =>
        let format := "  File: %N\n  Size: %-10s\tBlocks: %-10b IO Block: %-6o %F\n" ++
          "Device: 0,0\tInode: 0           Links: %h\n" ++
          "Access: (%04a/%A)  Uid: (    0/    root)   Gid: (    0/    root)\n"
        put (statText true operand item format.length format.toList)
      return 0

end StyleTokens.Shell.Tool

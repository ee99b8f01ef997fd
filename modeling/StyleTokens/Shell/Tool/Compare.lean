/-
Programs that compare files.

* `Tool.cmp` — the first byte that differs;
* `Tool.diff` — the lines that differ, with as many as possible kept.
-/
import StyleTokens.Shell.Tool.Sort

namespace StyleTokens.Shell.Tool

/-! Bytes -/

/-- How many signs are the same at the start of two texts. -/
def commonLength : List Char → List Char → Nat
  | c :: first, d :: second => if c = d then commonLength first second + 1 else 0
  | _, _ => 0

/-- Compares two files byte by byte. -/
def cmp : Tool Nat := do
  let table : OptionTable := {
    letters := "bi:ln:s"
    names := [
      ("print-bytes", .nothing, "b"), ("verbose", .nothing, "l"), ("bytes", .value, "n"),
      ("quiet", .nothing, "s"), ("silent", .nothing, "s")] }
  let misuseHere := fun (text : String) => do
    warn text
    warn "Try 'cmp --help' for more information."
    (stop 2 : Tool Unit)
  let line := table.line (← read).arguments
  if let some problem := line.problem then misuseHere problem
  if line.operands.isEmpty then misuseHere "missing operand after 'cmp'"
  let one := (line.operands[0]?).getD "-"
  let two := (line.operands[1]?).getD "-"
  let quiet := line.has "s"
  let open_ := fun (operand : String) => do
    match ← contents operand with
    | .ok data => return Octets.ofBytes data
    | .error cause =>
      if !quiet then warn (operand ++ ": " ++ reasonOf cause)
      stop 2
  let first ← open_ one
  let second ← open_ two
  let limit := ((line.last? "n").bind fun text => Number.sized? text.toList).getD
    (first.length + second.length)
  let first := first.take limit
  let second := second.take limit
  let tellEnd := fun (count : Nat) => do
    let shorter := if first.length < second.length then (one, first) else (two, second)
    let (name, text) := shorter
    let where_ :=
      if text.isEmpty then " which is empty"
      else
        let lines := text.count '\n'
        " after byte " ++ toString text.length ++
          (if line.has "l" then ""
           else if text.getLast? = some '\n' then ", line " ++ toString lines
           else ", in line " ++ toString (lines + 1))
    if !quiet && count < max first.length second.length then
      warn ("EOF on " ++ name ++ where_)
  let same := commonLength first second
  if same = first.length && same = second.length then return 0
  if quiet then return 1
  if line.has "l" then
    let width := (toString (min first.length second.length)).length
    let pairs := (first.zip second).zip (List.range (min first.length second.length))
    for ((c, d), n) in pairs do
      if c ≠ d then
        let octal := fun (c : Char) => inWidth 3 (String.ofList (Nat.toDigits 8 c.toNat))
        sayLine (inWidth width (toString (n + 1)) ++ " " ++ octal c ++ " " ++ octal d)
    if first.length ≠ second.length then tellEnd (min first.length second.length)
    return 1
  if same < min first.length second.length then
    let lines := (first.take same).count '\n' + 1
    sayLine (one ++ " " ++ two ++ " differ: char " ++ toString (same + 1) ++ ", line " ++
      toString lines)
  else tellEnd same
  return 1

/-! Lines -/

/-- Which lines of two texts have no partner in the other one. -/
structure Unpaired where
  first : Array Bool
  second : Array Bool
  deriving Inhabited

/-- The lengths of the longest sequences that the rests of two lists of lines have in
common, row by row from the end. -/
def commonRows (second : Array Nat) : List Nat → List (Array Nat)
  | [] => [Array.replicate (second.size + 1) 0]
  | line :: rest =>
    let below := commonRows second rest
    let under := (below.head?).getD #[]
    let row := (List.range second.size).foldl (fun (row : List Nat) n =>
      let column := second.size - 1 - n
      let value :=
        if second[column]? = some line then (under[column + 1]?).getD 0 + 1
        else max ((under[column]?).getD 0) ((row.head?).getD 0)
      value :: row) [0]
    row.toArray :: below

/-- The flags of the lines without a partner along the rows. -/
def walkRows (second : Array Nat) : (fuel : Nat) → List Nat → List (Array Nat) → (column : Nat) →
    List Bool × List Bool
  | 0, _, _, _ => ([], [])
  | _, [], _, column => ([], List.replicate (second.size - column) true)
  | fuel + 1, line :: rest, rows, column =>
    let here := (rows.head?).getD #[]
    let under := ((rows.drop 1).head?).getD #[]
    if second[column]? = some line then
      let (a, b) := walkRows second fuel rest (rows.drop 1) (column + 1)
      (false :: a, false :: b)
    else if second.size ≤ column || (here[column + 1]?).getD 0 ≤ (under[column]?).getD 0 then
      let (a, b) := walkRows second fuel rest (rows.drop 1) column
      (true :: a, b)
    else
      let (a, b) := walkRows second fuel (line :: rest) rows (column + 1)
      (a, true :: b)

/-- Flags with each run of set ones as far down as equal lines allow. -/
def slid (lines : Array Nat) : (fuel : Nat) → (place : Nat) → Array Bool → Array Bool
  | 0, _, flags => flags
  | fuel + 1, place, flags =>
    if flags.size ≤ place then flags
    else if flags[place]? ≠ some true then slid lines fuel (place + 1) flags
    else
      let count := ((flags.toList.drop place).takeWhile id).length
      let next := place + count
      if next < flags.size && lines[place]? = lines[next]? then
        slid lines fuel (place + 1) ((flags.setIfInBounds place false).setIfInBounds next true)
      else slid lines fuel (next + 1) flags

/-- Which lines of two texts have no partner. -/
def unpaired (first second : Array Nat) : Unpaired :=
  let rows := commonRows second first.toList
  let (a, b) := walkRows second (first.size + second.size + 1) first.toList rows 0
  let size := first.size + second.size + 1
  { first := slid first (2 * size) 0 a.toArray, second := slid second (2 * size) 0 b.toArray }

/-- A change: the lines that are left out, and those that are put in their place, by
where they start and how many they are. -/
structure Hunk where
  first : Nat
  removed : Nat
  second : Nat
  added : Nat
  deriving Repr, Inhabited

/-- The changes from the flags of lines. -/
def hunks (flags : Unpaired) : (fuel : Nat) → (a b : Nat) → List Hunk
  | 0, _, _ => []
  | fuel + 1, a, b =>
    let removed := ((flags.first.toList.drop a).takeWhile id).length
    let added := ((flags.second.toList.drop b).takeWhile id).length
    if removed + added = 0 then
      if flags.first.size ≤ a && flags.second.size ≤ b then [] else hunks flags fuel (a + 1) (b + 1)
    else ⟨a, removed, b, added⟩ :: hunks flags fuel (a + removed + 1) (b + added + 1)

/-- A line with a mark in front, and a note if its end is missing. -/
def markedLine (mark : String) (line : List Char) : String :=
  if line.getLast? = some '\n' then mark ++ String.ofList line
  else mark ++ String.ofList line ++ "\n\\ No newline at end of file\n"

/-- A range of lines as it is named in changes. -/
def rangeName (start count : Nat) : String :=
  if count = 0 then toString start
  else if count = 1 then toString (start + 1)
  else toString (start + 1) ++ "," ++ toString (start + count)

/-- Lines of a list. -/
def slice (lines : Array (List Char)) (start count : Nat) : List (List Char) :=
  (lines.extract start (start + count)).toList

/-- A change in the plain form. -/
def Hunk.plain (hunk : Hunk) (first second : Array (List Char)) : String :=
  let letter := if hunk.removed = 0 then "a" else if hunk.added = 0 then "d" else "c"
  let head := rangeName hunk.first hunk.removed ++ letter ++ rangeName hunk.second hunk.added ++ "\n"
  let removed := (slice first hunk.first hunk.removed).map (markedLine "< ")
  let added := (slice second hunk.second hunk.added).map (markedLine "> ")
  let middle := if hunk.removed = 0 || hunk.added = 0 then "" else "---\n"
  head ++ String.join removed ++ middle ++ String.join added

/-- Changes that are near each other, together. -/
def grouped (context : Nat) : List Hunk → List (List Hunk)
  | [] => []
  | hunk :: rest =>
    match grouped context rest with
    | (next :: others) :: more =>
      if next.first ≤ hunk.first + hunk.removed + 2 * context then
        (hunk :: next :: others) :: more
      else [hunk] :: (next :: others) :: more
    | found => [hunk] :: found

/-- A range of lines as it is named in front of changes with their surroundings. -/
def rangeCount (start count : Nat) : String :=
  if count = 1 then toString (start + 1)
  else toString (if count = 0 then start else start + 1) ++ "," ++ toString count

/-- Changes with the lines around them. -/
def unified (context : Nat) (first second : Array (List Char)) (group : List Hunk) : String :=
  match group.head?, group.getLast? with
  | some head, some last =>
    let start := head.first - context
    let back := head.first - start
    let stop_ := min first.size (last.first + last.removed + context)
    let forth := stop_ - (last.first + last.removed)
    let other := head.second - back
    let end_ := last.second + last.added + forth
    let title := "@@ -" ++ rangeCount start (stop_ - start) ++ " +" ++
      rangeCount other (end_ - other) ++ " @@\n"
    let (place, body) := group.foldl (fun (place, body) hunk =>
      let before := (slice first place (hunk.first - place)).map (markedLine " ")
      let removed := (slice first hunk.first hunk.removed).map (markedLine "-")
      let added := (slice second hunk.second hunk.added).map (markedLine "+")
      (hunk.first + hunk.removed, body ++ before ++ removed ++ added)) (start, ([] : List String))
    title ++ String.join (body ++ (slice first place (stop_ - place)).map (markedLine " "))
  | _, _ => ""

/-- How files are compared. -/
structure Differing where
  brief : Bool := false
  tellsSame : Bool := false
  whole : Bool := false
  absent : Bool := false
  folded : Bool := false
  /-- Whether blanks do not count at all, or their number does not. -/
  noBlanks : Bool := false
  fewBlanks : Bool := false
  context : Option Nat := none
  /-- The options as they are repeated for files in directories. -/
  shown : List String := []
  deriving Inhabited

/-- Signs with each run of blanks as one. -/
def squeezedBlanks : List Char → List Char
  | [] => []
  | c :: rest =>
    let more := squeezedBlanks rest
    if isFieldBlank c then
      if more.head? = some ' ' || more.isEmpty then more else ' ' :: more
    else c :: more

/-- A line as it is compared. -/
def Differing.key (differing : Differing) (line : List Char) : List Char :=
  let line := if differing.folded then line.map Char.toLower else line
  if differing.noBlanks then line.filter fun c => !isSpace c
  else if differing.fewBlanks then squeezedBlanks line
  else line

/-- The numbers of lines, the same for lines that count as the same. -/
def numbered (keys : List (List Char)) : List (List Char) → List Nat
  | [] => []
  | line :: rest => (keys.idxOf line) :: numbered keys rest

/-- Shows the differences of two texts. -/
def diffTexts (differing : Differing) (one two title : String) (first second : List Char) :
    Tool Nat := do
  let a := endedLines '\n' first
  let b := endedLines '\n' second
  let keysA := a.map differing.key
  let keysB := b.map differing.key
  if keysA = keysB then
    if differing.tellsSame then
      sayLine ("Files " ++ one ++ " and " ++ two ++ " are identical")
    return 0
  if differing.brief then
    sayLine ("Files " ++ one ++ " and " ++ two ++ " differ")
    return 1
  if first.contains (Char.ofNat 0) || second.contains (Char.ofNat 0) then
    sayLine ("Binary files " ++ one ++ " and " ++ two ++ " differ")
    return 2
  let keys := (keysA ++ keysB).eraseDups
  let flags := unpaired (numbered keys keysA).toArray (numbered keys keysB).toArray
  let found := hunks flags (a.length + b.length + 2) 0 0
  say title
  match differing.context with
  | none => for hunk in found do say (hunk.plain a.toArray b.toArray)
  | some context =>
    let time := "\t1970-01-01 00:00:00.000000000 +0000\n"
    say ("--- " ++ one ++ time ++ "+++ " ++ two ++ time)
    for group in grouped context found do
      say (unified context a.toArray b.toArray group)
  return 1

/-- The names in a directory. -/
def namesAt (path : String) : Tool (List String) := do
  let disk ← disk
  match disk.find true (pathOf path) with
  | .ok (.at place .directory) =>
    let names := disk.entries.filterMap fun (other, _) =>
      if place.isPrefixOf other && other.length = place.length + 1 then other.getLast? else none
    return (names.map Octets.ofText).mergeSort (fun a b => decide (a ≤ b))
  | _ => return []

/-- A path with one more name. -/
def under (path name : String) : String :=
  if path.endsWith "/" then path ++ name else path ++ "/" ++ name

/-- Shows the differences of what two paths lead to. -/
def diffPaths (differing : Differing) : (fuel : Nat) → (title : Bool) → (one two : String) →
    Tool Nat
  | 0, _, _, _ => return 2
  | fuel + 1, title, one, two => do
    match ← isDirectory one, ← isDirectory two with
    | true, true =>
      if title && !differing.whole then
        sayLine ("Common subdirectories: " ++ one ++ " and " ++ two)
        return 0
      let first ← namesAt one
      let second ← namesAt two
      let names := ((first ++ second).eraseDups).mergeSort (fun a b => decide (a ≤ b))
      forAll names fun name => do
        if !second.contains name then
          sayLine ("Only in " ++ one ++ ": " ++ name)
          return 1
        else if !first.contains name then
          sayLine ("Only in " ++ two ++ ": " ++ name)
          return 1
        else diffPaths differing fuel true (under one name) (under two name)
    | true, false =>
      if title then
        sayLine ("File " ++ one ++ " is a directory while file " ++ two ++ " is a regular file")
        return 1
      diffPaths differing fuel title (under one (((two.splitOn "/").getLast?).getD two)) two
    | false, true =>
      if title then
        sayLine ("File " ++ one ++ " is a regular file while file " ++ two ++ " is a directory")
        return 1
      diffPaths differing fuel title one (under two (((one.splitOn "/").getLast?).getD one))
    | false, false =>
      let get_ := fun (operand : String) => do
        match ← contents operand with
        | .ok data => return some (Octets.ofBytes data)
        | .error cause =>
          if differing.absent && cause = .notFound then return some []
          warn (operand ++ ": " ++ reasonOf cause)
          return none
      let first ← get_ one
      let second ← get_ two
      match first, second with
      | some first, some second =>
        let words := "diff" :: differing.shown ++ [one, two]
        let head := if title then " ".intercalate words ++ "\n" else ""
        diffTexts differing one two head first second
      | _, _ => return 2

/-- Shows the lines in which two files differ. -/
def diff : Tool Nat := do
  let table : OptionTable := {
    letters := "qsrNiwbuU:aBEZ"
    names := [
      ("brief", .nothing, "q"), ("report-identical-files", .nothing, "s"),
      ("recursive", .nothing, "r"), ("new-file", .nothing, "N"), ("ignore-case", .nothing, "i"),
      ("ignore-all-space", .nothing, "w"), ("ignore-space-change", .nothing, "b"),
      ("unified", .optional, "u"), ("text", .nothing, "a")] }
  let misuseHere := fun (text : String) => do
    warn text
    warn "Try 'diff --help' for more information."
    (stop 2 : Tool Unit)
  let arguments := (← read).arguments
  let line := table.line arguments
  if let some problem := line.problem then misuseHere problem
  let count := (line.last? "U").or (line.last? "u")
  let differing : Differing := {
    brief := line.has "q", tellsSame := line.has "s", whole := line.has "r", absent := line.has "N"
    folded := line.has "i", noBlanks := line.has "w", fewBlanks := line.has "b"
    context :=
      if line.has "u" || line.has "U" then
        some ((count.bind fun text => Number.natural? text.toList).getD 3)
      else none
    shown := arguments.filter fun word => word.startsWith "-" && word ≠ "-" }
  match line.operands with
  | [one, two] => diffPaths differing 1000 false one two
  | [] =>
    misuseHere "missing operand after 'diff'"
    return 2
  | [only] =>
    misuseHere ("missing operand after " ++ Naming.marked only)
    return 2
  | _ :: _ :: extra :: _ =>
    misuseHere ("extra operand " ++ Naming.marked extra)
    return 2

end StyleTokens.Shell.Tool

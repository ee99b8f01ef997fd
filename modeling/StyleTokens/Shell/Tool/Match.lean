/-
The program that looks for patterns.

* `Matching` — what is looked for, where, and what is told of it;
* `Matching.passLines` — the lines of one file;
* `Tool.grep` — the program; `Tool.egrep` and `Tool.fgrep` take other patterns.

Design notes: the lines before a match are kept until it is known whether they belong
to its surroundings.  Lines of a file with zeros are not shown.
-/
import StyleTokens.Shell.Search
import StyleTokens.Shell.Tool.File
import StyleTokens.Shell.Tool.Stream

namespace StyleTokens.Shell.Tool

/-- What is done with files that are no texts. -/
inductive Binary
  /-- Only a match is told. -/
  | told
  | text
  /-- They count as files without a match. -/
  | skipped
  deriving DecidableEq, Repr, Inhabited

/-- What is looked for, where, and what is told of it. -/
structure Matching where
  dialect : Option Dialect := none
  /-- Patterns, each with the place in a file where it was found. -/
  patterns : Option (List (String × List Char)) := none
  search : Search := {}
  inverted : Bool := false
  counts : Bool := false
  /-- Whether only names of files are shown, of those with a match or of those without. -/
  names : Option Bool := none
  quiet : Bool := false
  silent : Bool := false
  /-- Whether only the matches themselves are shown. -/
  parts : Bool := false
  most : Option Nat := none
  before : Option Nat := none
  after : Option Nat := none
  around : Option Nat := none
  /-- Digits of the lines around, and whether the last option was one of them. -/
  digits : String := ""
  inDigits : Bool := false
  named : Option Bool := none
  numbered : Bool := false
  offsets : Bool := false
  tabbed : Bool := false
  /-- Whether names end with a zero. -/
  zeros : Bool := false
  ended : Char := '\n'
  binary : Binary := .told
  /-- Whether directories are searched, and whether links in them are followed. -/
  descends : Option Bool := none
  skipsDirectories : Bool := false
  included : List String := []
  excluded : List String := []
  excludedDirectories : List String := []
  label : String := "(standard input)"
  separator : Option String := some "--"

namespace Matching

/-! Options -/

/-- The options. -/
def table : OptionTable := {
  letters := "EFGPivcLlnoqswxe:f:rRhHm:A:B:C:abzZIUud:D:TyX:V0123456789"
  names := [
    ("after-context", .value, "A"), ("basic-regexp", .nothing, "G"),
    ("before-context", .value, "B"), ("binary", .nothing, "U"), ("binary-files", .value, "binary"),
    ("byte-offset", .nothing, "b"), ("color", .optional, "color"), ("colour", .optional, "color"),
    ("context", .value, "C"), ("count", .nothing, "c"), ("devices", .value, "D"),
    ("dereference-recursive", .nothing, "R"), ("directories", .value, "d"),
    ("exclude", .value, "exclude"), ("exclude-dir", .value, "exclude-dir"),
    ("extended-regexp", .nothing, "E"), ("file", .value, "f"),
    ("files-with-matches", .nothing, "l"), ("files-without-match", .nothing, "L"),
    ("fixed-regexp", .nothing, "F"), ("fixed-strings", .nothing, "F"),
    ("group-separator", .value, "group"), ("ignore-case", .nothing, "i"),
    ("include", .value, "include"), ("initial-tab", .nothing, "T"),
    ("invert-match", .nothing, "v"), ("label", .value, "label"),
    ("line-buffered", .nothing, "line"), ("line-number", .nothing, "n"),
    ("line-regexp", .nothing, "x"), ("max-count", .value, "m"), ("no-filename", .nothing, "h"),
    ("no-group-separator", .nothing, "no-group"), ("no-ignore-case", .nothing, "no-ignore"),
    ("no-messages", .nothing, "s"), ("null", .nothing, "Z"), ("null-data", .nothing, "z"),
    ("only-matching", .nothing, "o"), ("perl-regexp", .nothing, "P"), ("quiet", .nothing, "q"),
    ("recursive", .nothing, "r"), ("regexp", .value, "e"), ("silent", .nothing, "q"),
    ("text", .nothing, "a"), ("unix-byte-offsets", .nothing, "u"),
    ("with-filename", .nothing, "H"), ("word-regexp", .nothing, "w")] }

/-- How the program is called. -/
def usage {α : Type} : Tool α := do
  sayError "Usage: grep [OPTION]... PATTERNS [FILE]...\n"
  referToHelp 2

/-- The matching with more patterns. -/
def withPatterns (matching : Matching) (more : List (String × List Char)) : Matching :=
  { matching with patterns := some (matching.patterns.getD [] ++ more) }

/-- The matching with patterns of a kind. -/
def withDialect (matching : Matching) (dialect : Dialect) : Tool Matching := do
  if matching.dialect.any (· ≠ dialect) then fail 2 "conflicting matchers specified"
  return { matching with dialect := some dialect }

/-- A number of lines around matches. -/
def context (value : String) : Tool Nat :=
  match Number.natural? value.toList with
  | some n => return n
  | none => fail 2 (value ++ ": invalid context length argument")

/-- The patterns in a file, each with its place. -/
def patternsIn (path : String) : Tool (List (String × List Char)) := do
  match ← contents path with
  | .error cause => fail 2 (path ++ ": " ++ reasonOf cause)
  | .ok data =>
    let (lines, _) := linesOf (Octets.ofBytes data)
    return (lines.zip (List.range lines.length)).map fun (line, n) =>
      (path ++ ":" ++ toString (n + 1) ++ ": ", line)

/-- The matching with one more option. -/
def withOption (matching : Matching) (name value : String) : Tool Matching := do
  let digit := (name.toList.head?.map Char.isDigit).getD false
  if digit then
    let digits := (if matching.inDigits then matching.digits else "") ++ name
    return { matching with digits, inDigits := true }
  let matching := { matching with inDigits := false }
  match name with
  | "E" => matching.withDialect .extended
  | "F" => matching.withDialect .fixed
  | "G" => matching.withDialect .basic
  | "P" => matching.withDialect .perl
  | "X" =>
    match value with
    | "egrep" | "awk" | "gawk" | "posixawk" => matching.withDialect .extended
    | "fgrep" => matching.withDialect .fixed
    | "grep" => matching.withDialect .basic
    | "perl" => matching.withDialect .perl
    | _ => fail 2 ("invalid matcher " ++ value)
  | "i" | "y" => return { matching with search := { matching.search with folded := true } }
  | "no-ignore" => return { matching with search := { matching.search with folded := false } }
  | "w" => return { matching with search := { matching.search with words := true } }
  | "x" => return { matching with search := { matching.search with lines := true } }
  | "v" => return { matching with inverted := true }
  | "c" => return { matching with counts := true }
  | "l" => return { matching with names := some true }
  | "L" => return { matching with names := some false }
  | "q" => return { matching with quiet := true }
  | "s" => return { matching with silent := true }
  | "o" => return { matching with parts := true }
  | "n" => return { matching with numbered := true }
  | "b" => return { matching with offsets := true }
  | "T" => return { matching with tabbed := true }
  | "Z" => return { matching with zeros := true }
  | "z" => return { matching with ended := Char.ofNat 0 }
  | "h" => return { matching with named := some false }
  | "H" => return { matching with named := some true }
  | "a" => return { matching with binary := .text }
  | "I" => return { matching with binary := .skipped }
  | "binary" =>
    match value with
    | "text" => return { matching with binary := .text }
    | "without-match" => return { matching with binary := .skipped }
    | "binary" => return { matching with binary := .told }
    | _ => fail 2 "unknown binary-files type"
  | "r" => return { matching with descends := some false, skipsDirectories := false }
  | "R" => return { matching with descends := some true, skipsDirectories := false }
  | "d" =>
    match value with
    | "read" => return { matching with descends := none, skipsDirectories := false }
    | "skip" => return { matching with descends := none, skipsDirectories := true }
    | "recurse" => return { matching with descends := some false, skipsDirectories := false }
    | _ =>
      warn ("invalid argument " ++ Naming.marked value ++ " for '--directories'")
      sayError "Valid arguments are:\n  - 'read'\n  - 'recurse'\n  - 'skip'\n"
      usage
  | "D" =>
    if value = "read" || value = "skip" then return matching
    else fail 2 "unknown devices method"
  | "u" =>
    warn "warning: --unix-byte-offsets (-u) is obsolete"
    return matching
  | "e" => return matching.withPatterns ((value.toList.splitOn '\n').map fun line => ("", line))
  | "f" => return matching.withPatterns (← patternsIn value)
  | "m" =>
    let body := value.toList
    let digits := if body.head? = some '-' then body.drop 1 else body
    match Number.natural? digits with
    | none => fail 2 "invalid max count"
    | some n => return { matching with most := if body.head? = some '-' then none else some n }
  | "A" => return { matching with after := some (← context value) }
  | "B" => return { matching with before := some (← context value) }
  | "C" => return { matching with around := some (← context value) }
  | "include" => return { matching with included := matching.included ++ [value] }
  | "exclude" => return { matching with excluded := matching.excluded ++ [value] }
  | "exclude-dir" =>
    return { matching with excludedDirectories := matching.excludedDirectories ++ [value] }
  | "label" => return { matching with label := value }
  | "group" => return { matching with separator := some value }
  | "no-group" => return { matching with separator := none }
  | _ => return matching

/-- The matching with what it looks for. -/
def compiled (matching : Matching) : Tool Matching := do
  let dialect := matching.dialect.getD .basic
  let search := matching.search
  let found ← (matching.patterns.getD []).mapM fun (place, text) => do
    match dialect.read search.folded search.words search.lines text with
    | .ok found => return found
    | .error reason => fail 2 (place ++ reason)
  for pattern in found do
    for name in pattern.ignored do
      warn ("warning: " ++ name ++ " at start of expression")
  return { matching with search := { search with sought := found.map Found.sought } }

/-! Lines of a file -/

/-- A line of a file. -/
structure Row where
  number : Nat
  offset : Nat
  text : List Char

/-- Where the search of a file is. -/
structure Progress where
  /-- Lines that were read. -/
  lines : Nat := 0
  offset : Nat := 0
  selected : Nat := 0
  /-- Lines after a match that are still to be shown. -/
  due : Nat := 0
  /-- The last lines that were not shown, the last one first. -/
  waiting : List Row := []
  /-- The number of the last line that was shown. -/
  shown : Nat := 0
  /-- Whether the file was found to be no text. -/
  isBinary : Bool := false
  deriving Inhabited

/-- A file that is searched. -/
structure Place where
  name : String
  /-- Whether the name is shown. -/
  named : Bool
  /-- Places of numbers. -/
  width : Nat

/-- Lines before a match that are shown. -/
def linesBefore (matching : Matching) : Nat :=
  (matching.before <|> matching.around).getD 0

/-- Lines after a match that are shown. -/
def linesAfter (matching : Matching) : Nat :=
  (matching.after <|> matching.around).getD 0

/-- Whether matches have surroundings, so that groups of lines are told apart. -/
def inGroups (matching : Matching) : Bool :=
  matching.before.isSome || matching.after.isSome || matching.around.isSome

/-- What stands in front of a line. -/
def head (matching : Matching) (place : Place) (mark : Char) (number offset : Nat) : List Char :=
  let file :=
    if place.named then place.name.toList ++ [if matching.zeros then Char.ofNat 0 else mark] else []
  let written := fun (n : Nat) =>
    let digits := toString n
    (if matching.tabbed then inWidth place.width digits else digits).toList ++ [mark]
  let number := if matching.numbered then written number else []
  let offset := if matching.offsets then written offset else []
  let all := file ++ number ++ offset
  if matching.tabbed && !all.isEmpty then all ++ ['\t'] else all

/-- Shows a line around a match. -/
def showAround (matching : Matching) (place : Place) (row : Row) : Tool Unit := do
  if !matching.parts then
    put (matching.head place '-' row.number row.offset ++ row.text ++ [matching.ended])

/-- Shows a selected line. -/
def showSelected (matching : Matching) (place : Place) (row : Row) : Tool Unit := do
  if !matching.parts then
    put (matching.head place ':' row.number row.offset ++ row.text ++ [matching.ended])
  else if !matching.inverted then
    for (start, stop) in matching.search.all row.text.toArray do
      put (matching.head place ':' row.number (row.offset + start) ++
        (row.text.drop start).take (stop - start) ++ [matching.ended])

/-- Whether lines are shown at all. -/
def showsLines (matching : Matching) : Bool :=
  !matching.counts && matching.names.isNone && !matching.quiet

/-- Whether a single match tells all about a file. -/
def isOneEnough (matching : Matching) : Bool :=
  matching.quiet || (matching.names.isSome && !matching.counts)

/-- Takes a selected line; `used` tells that something was shown before. -/
def select (matching : Matching) (place : Place) (used : Bool) (progress : Progress) (row : Row) :
    Tool Progress := do
  let progress := { progress with selected := progress.selected + 1 }
  if !matching.showsLines then return progress
  let before := progress.waiting.take matching.linesBefore
  let first := row.number - before.length
  let apart := progress.shown = 0 || progress.shown + 1 < first
  if matching.inGroups && used && apart then
    if let some separator := matching.separator then sayLine separator
  for other in before.reverse do
    matching.showAround place other
  matching.showSelected place row
  return { progress with waiting := [], shown := row.number, due := matching.linesAfter }

/-- Takes a line that is not selected. -/
def pass (matching : Matching) (place : Place) (progress : Progress) (row : Row) :
    Tool Progress := do
  if !matching.showsLines then return progress
  if 0 < progress.due then
    matching.showAround place row
    return { progress with due := progress.due - 1, shown := row.number }
  let waiting := (row :: progress.waiting).take matching.linesBefore
  return { progress with waiting }

/-- The lines of a file. -/
def passLines (matching : Matching) (place : Place) (used : Bool) :
    (fuel : Nat) → Feed → Progress → Tool (Except IoCause Progress × Feed)
  | 0, feed, progress => return (.ok progress, feed)
  | fuel + 1, feed, progress => do
    let isFull := matching.most.any (· ≤ progress.selected)
    if isFull && progress.due = 0 then return (.ok progress, feed)
    if matching.isOneEnough && 0 < progress.selected then return (.ok progress, feed)
    match ← feed.next with
    | (.error cause, feed) => return (.error cause, feed)
    | (.ok none, feed) => return (.ok progress, feed)
    | (.ok (some (text, _)), feed) =>
      let row : Row := { number := progress.lines + 1, offset := progress.offset, text }
      let progress :=
        { progress with lines := row.number, offset := progress.offset + text.length + 1 }
      let found := (matching.search.find? text.toArray 0).isSome
      let isBinary := feed.hasZero && matching.ended = '\n' && matching.binary ≠ .text
      if isBinary && matching.binary = .skipped then return (.ok progress, feed)
      if !isFull && found != matching.inverted then
        if isBinary && matching.showsLines then
          return (.ok { progress with isBinary := true, selected := progress.selected + 1 }, feed)
        let progress ← matching.select place (used || 0 < progress.shown) progress row
        if (← get).failure.isSome then return (.ok progress, feed)
        passLines matching place used fuel feed progress
      else passLines matching place used fuel feed (← matching.pass place progress row)

/-! Files -/

/-- What came out of several files. -/
structure Outcome where
  /-- Whether a line was selected. -/
  found : Bool := false
  failed : Bool := false
  /-- Whether lines were shown. -/
  used : Bool := false
  deriving Inhabited

/-- Tells that a file could not be searched. -/
def refuse (matching : Matching) (name : String) (cause : IoCause) (outcome : Outcome) :
    Tool Outcome := do
  if !matching.silent then warn (name ++ ": " ++ reasonOf cause)
  return { outcome with failed := true }

/-- Tells of a file that was searched. -/
def tell (matching : Matching) (place : Place) (progress : Progress) : Tool Unit := do
  if matching.quiet then return
  let nameEnd : Char := if matching.zeros then Char.ofNat 0 else '\n'
  match matching.names with
  | some wanted =>
    if (0 < progress.selected) = wanted then put (place.name.toList ++ [nameEnd])
  | none =>
    if matching.counts then
      let mark : Char := if matching.zeros then Char.ofNat 0 else ':'
      let head := if place.named then place.name.toList ++ [mark] else []
      put (head ++ (toString progress.selected ++ "\n").toList)
    else if progress.isBinary then warn (place.name ++ ": binary file matches")

/-- Places of the numbers in a file. -/
def widthOf (stream : Nat) : Tool Nat := do
  let id := (← read).id
  look fun world =>
    match world.stream? id stream with
    | some (_, file) =>
      match world.data? file.target with
      | some data => (toString data.size).length
      | none => 19
    | none => 19

/-- Searches a stream. -/
def stream (matching : Matching) (name : String) (named : Bool) (stream : Nat)
    (outcome : Outcome) : Tool Outcome := do
  let id := (← read).id
  let isOwn := !matching.quiet && matching.names.isNone && matching.most.all (1 < ·)
  if isOwn then
    if ← look (isOwnOutput id stream) then
      if !matching.silent then warn (name ++ ": input file is also the output")
      return { outcome with failed := true }
  let place : Place := { name, named, width := ← widthOf stream }
  let feed : Feed := { stream, ended := matching.ended }
  let (result, feed) ← matching.passLines place outcome.used endless feed {}
  match result with
  | .error cause =>
    let outcome ← matching.refuse name cause outcome
    matching.tell place {}
    return outcome
  | .ok progress =>
    if stream = 0 && matching.most.any (· ≤ progress.selected) then seekBack 0 feed.remaining
    matching.tell place progress
    return { outcome with
      found := outcome.found || 0 < progress.selected
      used := outcome.used || 0 < progress.shown }

/-- Whether a name, or what comes behind one of its strokes, is matched. -/
def accepts (wildcards : List String) (name : String) : Bool :=
  let texts := (Wildcard.tails name.toList).filter fun text =>
    text.length = name.length ||
      (name.toList[name.length - text.length - 1]? = some '/' && !text.isEmpty)
  wildcards.any fun wildcard =>
    let items := Wildcard.ofField (wildcard.toList.map fun c => (c, false))
    texts.any (Wildcard.accepts items)

/-- Whether a file or directory is left out. -/
def leavesOut (matching : Matching) (isDirectory : Bool) (name : String) : Bool :=
  if isDirectory then accepts matching.excludedDirectories name
  else
    accepts matching.excluded name ||
      (!matching.included.isEmpty && !accepts matching.included name)

/-- Searches what a path leads to, and what is in it.  `named` tells whether names are
shown; `isOperand` that the path was given. -/
def path (matching : Matching) : (fuel : Nat) → (shown path : String) → (named isOperand : Bool) →
    Outcome → Tool Outcome
  | 0, _, _, _, _, outcome => return outcome
  | fuel + 1, shown, path, named, isOperand, outcome => do
    if matching.quiet && outcome.found then return outcome
    let call ← read
    let follows := isOperand || matching.descends ≠ some false
    match ← look fun world => world.entryAt call.id call.here follows path with
    | .error cause => matching.refuse shown cause outcome
    | .ok (_, .link _) => return outcome
    | .ok (place, .directory) =>
      let last := if isOperand then path else lastName path
      if matching.skipsDirectories || matching.leavesOut true last then return outcome
      if matching.descends.isNone then
        let outcome ← matching.refuse shown .isDirectory outcome
        matching.tell { name := shown, named, width := 0 } {}
        return outcome
      let named := matching.named.getD true
      let entries ←
        match place with
        | some place => entriesOf place
        | none => pure []
      entries.foldlM (fun outcome name =>
        let inner := below path name
        let shown := if shown = "" then name else below shown name
        matching.path fuel shown inner named false outcome) outcome
    | .ok _ =>
      let last := if isOperand then path else lastName path
      if matching.leavesOut false last then return outcome
      match ← openInput path with
      | .error cause => matching.refuse shown cause outcome
      | .ok number =>
        let outcome ← matching.stream shown named number outcome
        closeInput number
        return outcome

/-- Searches what an operand stands for. -/
def operand (matching : Matching) (named : Bool) (operand : String) (outcome : Outcome) :
    Tool Outcome :=
  if matching.quiet && outcome.found then return outcome
  else if operand = "-" then matching.stream matching.label named 0 outcome
  else matching.path 100 operand operand named true outcome

end Matching

/-- Looks for patterns. -/
def grep : Tool Nat := do
  let line := Matching.table.line (← read).arguments
  let matching ← line.options.foldlM (fun (matching : Matching) (name, value) =>
    matching.withOption name (value.getD "")) {}
  if let some problem := line.problem then
    warn problem
    Matching.usage
  let (matching, operands) ←
    match matching.patterns, line.operands with
    | some _, operands => pure (matching, operands)
    | none, pattern :: operands =>
      pure (matching.withPatterns ((pattern.toList.splitOn '\n').map fun line => ("", line)), operands)
    | none, [] => Matching.usage
  let digits := Number.natural? matching.digits.toList
  let matching := { matching with around := matching.around <|> digits }
  let matching ← matching.compiled
  if matching.most = some 0 then return 1
  let named := matching.named.getD (1 < operands.length)
  let outcome ←
    if !operands.isEmpty then
      operands.foldlM (fun outcome operand => matching.operand named operand outcome) {}
    else if matching.descends.isSome then matching.path 100 "" "." named true {}
    else matching.operand named "-" {}
  if outcome.failed && !(matching.quiet && outcome.found) then return 2
  return if outcome.found then 0 else 1

/-- The program under another name, with one more option. -/
def grepWith (option : String) : Tool Nat :=
  calling (fun call => { call with name := "grep", arguments := option :: call.arguments }) grep

/-- Looks for extended patterns. -/
def egrep : Tool Nat :=
  grepWith "-E"

/-- Looks for texts. -/
def fgrep : Tool Nat :=
  grepWith "-F"

end StyleTokens.Shell.Tool

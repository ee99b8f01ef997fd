/-
Programs that work on lines.

* `Tool.nl`, `Tool.rev`, `Tool.tac`, `Tool.fold`, `Tool.expand` — lines shown otherwise;
* `Tool.wc` — counts;
* `Tool.cut`, `Tool.paste` — columns;
* `Tool.tr` — signs for signs.
-/
import StyleTokens.Shell.Expression.Reader
import StyleTokens.Shell.Tool.Stream

namespace StyleTokens.Shell.Tool

/-! Lines shown otherwise -/

/-- Writes every line from its end to its start. -/
def rev : Tool Nat := do
  let line ← line { letters := "0" } 1
  let (_, status) ← overInputs line.operands () (fun _ _ octets => do
    let (lines, ended) := linesOf octets
    let turned := lines.map List.reverse
    put (List.intercalate ['\n'] turned ++ if ended && !lines.isEmpty then ['\n'] else []))
    fun operand cause =>
      if cause = .isDirectory then operand ++ ": " ++ reasonOf cause
      else "cannot open " ++ operand ++ ": " ++ reasonOf cause
  return status

/-- Writes the lines from the last to the first. -/
def tac : Tool Nat := do
  let line ← line { letters := "brs:", names := [("separator", .value, "s"), ("before", .nothing, "b")] } 1
  let ended := (((line.last? "s").getD "\n").toList.head?).getD '\n'
  let (_, status) ← overInputs line.operands () (fun _ _ octets => do
    put (endedLines ended octets).reverse.flatten)
    fun operand cause =>
      if cause = .isDirectory then Naming.needed operand ++ ": read error: " ++ reasonOf cause
      else "failed to open " ++ Naming.always operand ++ " for reading: " ++ reasonOf cause
  return status

/-- How lines are numbered. -/
structure Numbering where
  body : String := "t"
  head : String := "n"
  foot : String := "n"
  first : Int := 1
  step : Int := 1
  width : Nat := 6
  separator : String := "\t"
  form : String := "rn"
  /-- Whether numbers go on at new pages. -/
  goesOn : Bool := false
  /-- How many blank lines count as one. -/
  joined : Nat := 1
  deriving Inhabited

/-- A number in its form. -/
def Numbering.label (numbering : Numbering) (n : Int) : String :=
  let digits := toString n
  let filling := fun c => String.ofList (List.replicate (numbering.width - digits.length) c)
  match numbering.form with
  | "ln" => digits ++ filling ' '
  | "rz" =>
    if n < 0 then "-" ++ filling '0' ++ toString n.natAbs else filling '0' ++ digits
  | _ => filling ' ' ++ digits

/-- Where a numbering is: the number, the style, and how many blank lines came last. -/
structure Numbered where
  number : Int
  style : String
  blanks : Nat := 0
  deriving Inhabited

/-- The lines of a text with numbers. -/
def Numbering.pass (numbering : Numbering) (state : Numbered) (line : List Char) :
    Tool Numbered := do
  let section_ := fun (style : String) => do
    put ['\n']
    let number := if numbering.goesOn then state.number else numbering.first
    return ({ number, style } : Numbered)
  match String.ofList line with
  | "\\:\\:\\:" => section_ numbering.head
  | "\\:\\:" => do
    put ['\n']
    return { state with style := numbering.body, blanks := 0 }
  | "\\:" => do
    put ['\n']
    return { state with style := numbering.foot, blanks := 0 }
  | text =>
    let blanks := if line.isEmpty then state.blanks + 1 else 0
    let counts :=
      match state.style.toList with
      | ['a'] => !line.isEmpty || blanks % numbering.joined = 0
      | ['t'] => !line.isEmpty
      | 'p' :: pattern =>
        match Expression.read .basic pattern with
        | .ok written => (written.expression.find? { signs := line.toArray } 0).isSome
        | .error _ => false
      | _ => false
    if counts then
      say (numbering.label state.number ++ numbering.separator ++ text ++ "\n")
      return { state with number := state.number + numbering.step, blanks := 0 }
    else
      let width := numbering.width + numbering.separator.length
      put (List.replicate width ' ' ++ line ++ ['\n'])
      return { state with blanks }

/-- Writes lines with numbers. -/
def nl : Tool Nat := do
  let table : OptionTable := {
    letters := "h:b:f:v:i:pl:s:w:n:d:"
    names := [
      ("header-numbering", .value, "h"), ("body-numbering", .value, "b"),
      ("footer-numbering", .value, "f"), ("starting-line-number", .value, "v"),
      ("line-increment", .value, "i"), ("no-renumber", .nothing, "p"),
      ("join-blank-lines", .value, "l"), ("number-separator", .value, "s"),
      ("number-width", .value, "w"), ("number-format", .value, "n"),
      ("section-delimiter", .value, "d")] }
  let style := fun (part value : String) => do
    if ["a", "t", "n"].contains value || value.startsWith "p" then return value
    misuse 1 ("invalid " ++ part ++ " numbering style: " ++ Naming.marked value)
  let integer := fun (what value : String) => do
    match Arithmetic.ofText (some 10) value.toList with
    | some n => return n
    | none => fail 1 ("invalid " ++ what ++ ": " ++ Naming.marked value)
  let step := fun (numbering : Numbering) (name value : String) => do
    match name with
    | "h" => return { numbering with head := ← style "header" value }
    | "b" => return { numbering with body := ← style "body" value }
    | "f" => return { numbering with foot := ← style "footer" value }
    | "v" => return { numbering with first := ← integer "starting line number" value }
    | "i" => return { numbering with step := ← integer "line number increment" value }
    | "p" => return { numbering with goesOn := true }
    | "l" => return { numbering with joined := (← integer "line number of blank lines" value).toNat }
    | "s" => return { numbering with separator := value }
    | "w" =>
      let n ← integer "line number field width" value
      if n ≤ 0 then
        fail 1 ("invalid line number field width: " ++ Naming.marked value ++
          ": Numerical result out of range")
      return { numbering with width := n.toNat }
    | "n" =>
      if ["ln", "rn", "rz"].contains value then return { numbering with form := value }
      misuse 1 ("invalid line numbering format: " ++ Naming.marked value)
    | _ => return numbering
  let (numbering, operands) ← options table 1 ({} : Numbering) step
  let start : Numbered := { number := numbering.first, style := numbering.body }
  let (_, status) ← overInputs operands start fun state _ octets =>
    (linesOf octets).1.foldlM numbering.pass state
  return status

/-- The column behind a sign. -/
def columnAfter (bytes : Bool) (column : Nat) (c : Char) : Nat :=
  if bytes then column + 1
  else if c = Char.ofNat 8 then column - 1
  else if c = '\r' then 0
  else if c = '\t' then column / 8 * 8 + 8
  else column + 1

/-- A line cut so that no piece is wider than allowed; `room` bounds the pieces. -/
def folded (bytes blanks : Bool) (width : Nat) : (fuel : Nat) → List Char → List (List Char)
  | 0, line => [line]
  | fuel + 1, line =>
    let rec fit : Nat → Nat → List Char → Nat
      | _, taken, [] => taken
      | column, taken, c :: rest =>
        let next := columnAfter bytes column c
        if width < next && 0 < taken then taken else fit next (taken + 1) rest
    let count := fit 0 0 line
    if count = line.length then [line]
    else
      let piece := line.take count
      let start := (piece.reverse.dropWhile fun c => c ≠ ' ' && c ≠ '\t').length
      let count := if blanks && 0 < start then start else count
      line.take count :: folded bytes blanks width fuel (line.drop count)

/-- Writes long lines in pieces. -/
def fold : Tool Nat :=
  let spelled := fun (arguments : List String) => arguments.map fun argument =>
    match argument.toList with
    | '-' :: c :: rest => if c.isDigit then "-w" ++ String.ofList (c :: rest) else argument
    | _ => argument
  calling (fun call => { call with arguments := spelled call.arguments }) do
    let line ← line {
      letters := "bsw:"
      names := [("bytes", .nothing, "b"), ("spaces", .nothing, "s"), ("width", .value, "w")] } 1
    let value := (line.last? "w").getD "80"
    let width ←
      match Number.natural? value.toList with
      | some 0 | none => fail 1 ("invalid number of columns: " ++ Naming.marked value)
      | some n => pure n
    let (_, status) ← overInputs line.operands () fun _ _ octets => do
      let (lines, ended) := linesOf octets
      let cut := fun (text : List Char) =>
        List.intercalate ['\n'] (folded (line.has "b") (line.has "s") width text.length text)
      put (List.intercalate ['\n'] (lines.map cut) ++ if ended && !lines.isEmpty then ['\n'] else [])
    return status

/-- A line with blanks in place of tabs. -/
def expanded (width : Nat) (initial : Bool) (line : List Char) : List Char :=
  let (_, _, signs) := line.foldl (fun (column, start, signs) c =>
    if c = '\t' && (start || !initial) then
      let next := column / width * width + width
      (next, start, List.replicate (next - column) ' ' :: signs)
    else
      let next := if c = Char.ofNat 8 then column - 1 else column + 1
      (next, start && c = ' ', [c] :: signs)) (0, true, ([] : List (List Char)))
  signs.reverse.flatten

/-- Writes blanks in place of tabs. -/
def expand : Tool Nat := do
  let line ← line {
    letters := "it:", names := [("initial", .nothing, "i"), ("tabs", .value, "t")] } 1
  let width := ((line.last? "t").bind fun text => Number.natural? text.toList).getD 8
  let (_, status) ← overInputs line.operands () fun _ _ octets => do
    let (lines, ended) := linesOf octets
    put (List.intercalate ['\n'] (lines.map (expanded width (line.has "i"))) ++
      if ended && !lines.isEmpty then ['\n'] else [])
  return status

/-! Counts -/

/-- What is counted in a text. -/
structure Counts where
  lines : Nat := 0
  words : Nat := 0
  chars : Nat := 0
  bytes : Nat := 0
  widest : Nat := 0
  deriving Inhabited

/-- Whether a sign separates words. -/
def isSpace (c : Char) : Bool :=
  c = ' ' || (9 ≤ c.toNat && c.toNat ≤ 13)

/-- The width of a line. -/
def widthOf (line : List Char) : Nat :=
  let (_, widest) := line.foldl (fun (column, widest) c =>
    let next :=
      if c = '\t' then column / 8 * 8 + 8
      else if c = '\r' || c = Char.ofNat 12 then 0
      else if Naming.isShown c then column + 1 else column
    (next, max widest next)) (0, 0)
  widest

/-- The counts of a text. -/
def Counts.ofText (octets : List Char) : Counts :=
  { lines := octets.count '\n'
    words := ((octets.splitOnP isSpace).filter (!·.isEmpty)).length
    chars := octets.length
    bytes := octets.length
    widest := ((octets.splitOn '\n').map widthOf).foldl max 0 }

/-- The counts of two texts together. -/
def Counts.add (first second : Counts) : Counts :=
  ⟨first.lines + second.lines, first.words + second.words, first.chars + second.chars,
    first.bytes + second.bytes, max first.widest second.widest⟩

/-- Counts lines, words and bytes. -/
def wc : Tool Nat := do
  let line ← line {
    letters := "clLmw"
    names := [
      ("bytes", .nothing, "c"), ("chars", .nothing, "m"), ("lines", .nothing, "l"),
      ("words", .nothing, "w"), ("max-line-length", .nothing, "L"), ("total", .value, "total")] } 1
  let chosen := ["l", "w", "m", "c", "L"].filter line.has
  let chosen := if chosen.isEmpty then ["l", "w", "c"] else chosen
  let operands := orInput line.operands
  let call ← read
  let stats ← look fun world => operands.map fun operand =>
    if operand = "-" then
      match world.stream? call.id 0 with
      | some (_, file) =>
        match file.target with
        | .file _ | .nameless _ => some (some ((world.data? file.target).getD .empty).size)
        | _ => some none
      | none => none
    else
      match world.entryAt call.id call.here true operand with
      | .ok (some _, .file data) => some (some data.size)
      | .ok _ => some none
      | .error _ => none
  let sizes := stats.filterMap id
  let total := (sizes.map (·.getD 0)).foldl (· + ·) 0
  let width :=
    if operands.length = 1 && chosen.length = 1 then 1
    else if (stats.head?.getD none).isNone && !stats.isEmpty then 1
    else max (toString total).length (if sizes.any Option.isNone then 7 else 1)
  let width := if (stats.head?.getD none).isNone then 1 else width
  let row := fun (counts : Counts) (name : Option String) => do
    let value := fun (letter : String) =>
      match letter with
      | "l" => counts.lines
      | "w" => counts.words
      | "m" => counts.chars
      | "c" => counts.bytes
      | _ => counts.widest
    let cells := chosen.map fun letter => inWidth width (toString (value letter))
    say (" ".intercalate cells ++ ((name.map (" " ++ ·)).getD "") ++ "\n")
  let (sum, status) ← operands.foldlM (fun (sum, status) operand => do
    let name := if operand = "-" && line.operands.isEmpty then none else some operand
    match ← openInput operand with
    | .error cause =>
      warn (refusal operand cause)
      return (sum, 1)
    | .ok stream =>
      let data ← readAll stream
      closeInput stream
      match data with
      | .ok data =>
        let counts := Counts.ofText (Octets.ofBytes data)
        row counts name
        return (sum.add counts, status)
      | .error cause =>
        warn (refusal (if name.isNone then "standard input" else operand) cause)
        row {} name
        return (sum, 1)) ((({} : Counts), 0))
  if 1 < operands.length then row sum (some "total")
  return status

/-! Columns -/

/-- A range of columns, from the first to the last of them if there is one. -/
abbrev Range := Nat × Option Nat

/-- A list of columns, or why it is none. -/
def readRanges (fields : Bool) (text : String) : Except String (List Range) :=
  let zero := if fields then "fields are numbered from 1"
    else "byte/character positions are numbered from 1"
  let bad := fun (part : String) =>
    (if fields then "invalid field value " else "invalid byte/character position ") ++
      Naming.marked part
  let parts := (text.toList.splitOnP fun c => c = ',' || c = ' ' || c = '\t')
  parts.mapM fun part => do
    let low := part.takeWhile Char.isDigit
    match part.drop low.length with
    | [] =>
      match Number.natural? low with
      | some 0 | none => throw zero
      | some n => return (n, some n)
    | '-' :: rest =>
      let high := rest.takeWhile Char.isDigit
      let after := rest.drop high.length
      if !after.isEmpty then throw (bad (String.ofList after))
      if low.isEmpty && high.isEmpty then
        throw ("invalid range with no endpoint: " ++ String.ofList part)
      let first := (Number.natural? low).getD 1
      if first = 0 then throw zero
      match Number.natural? high with
      | none => return (first, none)
      | some last =>
        if last < first then throw "invalid decreasing range"
        return (first, some last)
    | after => throw (bad (String.ofList after))

/-- Whether a column is in a range. -/
def inRange (n : Nat) : Range → Bool
  | (low, some high) => low ≤ n && n ≤ high
  | (low, none) => low ≤ n

/-- Whether a column is in one of the ranges. -/
def inRanges (ranges : List Range) (n : Nat) : Bool :=
  ranges.any (inRange n)

/-- Writes columns. -/
def cut : Tool Nat := do
  let line ← line {
    letters := "b:c:d:f:nsz"
    names := [
      ("bytes", .value, "b"), ("characters", .value, "c"), ("delimiter", .value, "d"),
      ("fields", .value, "f"), ("only-delimited", .nothing, "s"),
      ("output-delimiter", .value, "o"), ("complement", .nothing, "complement"),
      ("zero-terminated", .nothing, "z")] } 1
  let lists := line.options.filter fun (name, _) => ["b", "c", "f"].contains name
  let (name, list) ←
    match lists with
    | [] => misuse 1 "you must specify a list of bytes, characters, or fields"
    | [(name, list)] => pure (name, list.getD "")
    | _ => misuse 1 "only one list may be specified"
  let fields := name = "f"
  if let some delimiter := line.last? "d" then
    if 1 < delimiter.length then misuse 1 "the delimiter must be a single character"
    if !fields then
      misuse 1 "an input delimiter may be specified only when operating on fields"
  if line.has "s" && !fields then
    misuse 1 "suppressing non-delimited lines makes sense\n\tonly when operating on fields"
  let ranges ←
    match readRanges fields list with
    | .ok ranges => pure ranges
    | .error reason => misuse 1 reason
  let delimiter := (((line.last? "d").map fun text => (text.toList.head?).getD (Char.ofNat 0))).getD '\t'
  let wanted := fun (n : Nat) => line.has "complement" != inRanges ranges n
  let ended := if line.has "z" then Char.ofNat 0 else '\n'
  let ofBytes := fun (text : List Char) =>
    let marked := (text.zip (List.range text.length)).map fun (c, n) => (c, wanted (n + 1), n + 1)
    match line.last? "o" with
    | none => (marked.filter (·.2.1)).map (·.1)
    | some between =>
      let starts := fun (n : Nat) => n ≠ 1 && (!wanted (n - 1) || ranges.any fun (low, _) =>
        low = n && !(ranges.any fun range => range.1 < n && inRange n range))
      let (_, signs) := marked.foldl (fun (begun, signs) (c, keeps, n) =>
        if !keeps then (begun, signs)
        else if begun && starts n then (true, [c] :: between.toList :: signs)
        else (true, [c] :: signs)) (false, ([] : List (List Char)))
      signs.reverse.flatten
  let ofFields := fun (text : List Char) =>
    let parts := text.splitOn delimiter
    if parts.length = 1 then if line.has "s" then none else some text
    else
      let kept := (parts.zip (List.range parts.length)).filter fun (_, n) => wanted (n + 1)
      let between := ((line.last? "o").map String.toList).getD [delimiter]
      some (List.intercalate between (kept.map (·.1)))
  let (_, status) ← overInputs line.operands () fun _ _ octets => do
    let all := octets.splitOn ended
    let lines := if all.getLast? = some [] then all.dropLast else all
    for text in lines do
      if fields then
        if let some shown := ofFields text then put (shown ++ [ended])
      else put (ofBytes text ++ [ended])
  return status

/-- Delimiters with their escapes carried out; one may be nothing. -/
def delimiters : List Char → List (List Char)
  | '\\' :: c :: rest =>
    (match c with
      | 'n' => ['\n']
      | 't' => ['\t']
      | '0' => []
      | c => (escapeSign? c).toList ++ if (escapeSign? c).isNone then [c] else []) :: delimiters rest
  | c :: rest => [c] :: delimiters rest
  | [] => []

/-- Lines one beside the other, `fuel` of them at most. -/
def besides (between : List (List Char)) : (fuel : Nat) → List (List (List Char)) → List (List Char)
  | 0, _ => []
  | fuel + 1, columns =>
    if columns.all List.isEmpty then []
    else
      let cells := columns.map fun column => (column.head?).getD []
      let row := (cells.zip (List.range cells.length)).flatMap fun (cell, n) =>
        (if n = 0 then [] else (between[(n - 1) % between.length]?).getD []) ++ cell
      (row ++ ['\n']) :: besides between fuel (columns.map (·.drop 1))

/-- Writes lines of several files beside each other, or those of a file in one line. -/
def paste : Tool Nat := do
  let line ← line {
    letters := "d:sz", names := [("delimiters", .value, "d"), ("serial", .nothing, "s")] } 1
  let between := delimiters ((line.last? "d").getD "\t").toList
  let between := if between.isEmpty then [[]] else between
  let operands := orInput line.operands
  if line.has "s" then
    let (_, status) ← overInputs operands () fun _ _ octets => do
      let lines := (linesOf octets).1
      let row := (lines.zip (List.range lines.length)).flatMap fun (text, n) =>
        (if n = 0 then [] else (between[(n - 1) % between.length]?).getD []) ++ text
      put (row ++ ['\n'])
    return status
  let inputs := operands.filter (· = "-")
  let columns ← operands.foldlM (fun columns operand => do
    if operand = "-" then return columns ++ [none]
    match ← contents operand with
    | .ok data => return columns ++ [some (linesOf (Octets.ofBytes data)).1]
    | .error cause => fail 1 (refusal operand cause)) ([] : List (Option (List (List Char))))
  let shared ←
    if inputs.isEmpty then pure []
    else
      match ← contents "-" with
      | .ok data => pure (linesOf (Octets.ofBytes data)).1
      | .error cause => fail 1 (refusal "-" cause)
  let count := inputs.length
  let (_, columns) := columns.foldl (fun (taken, done) column =>
    match column with
    | some lines => (taken, done ++ [lines])
    | none =>
      let mine := (shared.zip (List.range shared.length)).filterMap fun (text, n) =>
        if n % count = taken then some text else none
      (taken + 1, done ++ [mine])) (0, ([] : List (List (List Char))))
  let longest := (columns.map List.length).foldl max 0
  for row in besides between longest columns do
    put row
  return 0

/-! Signs for signs -/

/-- A part of a set of signs. -/
inductive SetPart
  | signs (text : List Char)
  /-- A class of signs by its name. -/
  | named (name : String) (inside : Char → Bool)
  /-- A sign again and again, up to the length of the other set if that is not said. -/
  | filling (c : Char) (count : Nat)

/-- The first sign of a set, escapes carried out, and what comes after it. -/
def setSign : List Char → Option (Char × List Char)
  | '\\' :: c :: rest =>
    if isOctal c then
      let digits := ((c :: rest).take 3).takeWhile isOctal
      some (octalSign digits, (c :: rest).drop digits.length)
    else some ((escapeSign? c).getD c, rest)
  | c :: rest => some (c, rest)
  | [] => none

/-- The signs from one to another. -/
def signsBetween (low high : Char) : List Char :=
  (List.range (high.toNat + 1 - low.toNat)).map fun n => Char.ofNat (low.toNat + n)

/-- The parts of a set; `fuel` is at least its length. -/
def setParts : (fuel : Nat) → List Char → Except String (List SetPart)
  | 0, _ => return []
  | fuel + 1, text => do
    match text with
    | [] => return []
    | '[' :: ':' :: rest =>
      let name := String.ofList (rest.takeWhile (· ≠ ':'))
      match rest.drop name.length with
      | ':' :: ']' :: after =>
        match Wildcard.classes.lookup name with
        | some inside => return .named name inside :: (← setParts fuel after)
        | none => throw ("invalid character class " ++ Naming.marked name)
      | _ => return .signs ['['] :: (← setParts fuel (':' :: rest))
    | '[' :: '=' :: c :: '=' :: ']' :: after => return .signs [c] :: (← setParts fuel after)
    | _ =>
      let repeated :=
        match text with
        | '[' :: rest =>
          match setSign rest with
          | some (c, '*' :: after) =>
            let digits := after.takeWhile Char.isDigit
            match after.drop digits.length with
            | ']' :: after =>
              let base := if digits.head? = some '0' then 8 else 10
              some (c, digits.foldl (fun n d => n * base + (d.toNat - 48)) 0, after)
            | _ => none
          | _ => none
        | _ => none
      match repeated with
      | some (c, count, after) => return .filling c count :: (← setParts fuel after)
      | none =>
        match setSign text with
        | none => return []
        | some (c, '-' :: after) =>
          match setSign after with
          | some (d, behind) =>
            if d < c then
              let source := text.take (text.length - behind.length)
              throw ("range-endpoints of " ++ Naming.marked (String.ofList source) ++
                " are in reverse collating sequence order")
            return .signs (signsBetween c d) :: (← setParts fuel behind)
          | none => return .signs [c, '-'] :: []
        | some (c, after) => return .signs [c] :: (← setParts fuel after)

/-- All signs. -/
def allSigns : List Char :=
  (List.range 256).map Char.ofNat

/-- The signs of parts, where a filling without a count has the given one. -/
def SetPart.signsOf (rest : Nat) : SetPart → List Char
  | signs text => text
  | named _ inside => allSigns.filter inside
  | filling c count => List.replicate (if count = 0 then rest else count) c

/-- Signs for others, deleted, or made one. -/
def tr : Tool Nat := do
  let table : OptionTable := {
    letters := "cCdst", inOrder := true
    names := [
      ("complement", .nothing, "c"), ("delete", .nothing, "d"), ("squeeze-repeats", .nothing, "s"),
      ("truncate-set1", .nothing, "t")] }
  let line ← line table 1
  let complement := line.has "c" || line.has "C"
  let deletes := line.has "d"
  let squeezes := line.has "s"
  let least := if deletes == squeezes then 2 else 1
  let most := if deletes && !squeezes then 1 else 2
  match line.operands with
  | [] => misuse 1 "missing operand"
  | operands =>
    if operands.length < least then
      warn ("missing operand after " ++ Naming.marked ((operands.getLast?).getD ""))
      sayError (if squeezes then
          "Two strings must be given when both deleting and squeezing repeats.\n"
        else "Two strings must be given when translating.\n")
      referToHelp 1
    if most < operands.length then
      warn ("extra operand " ++ Naming.marked ((operands[most]?).getD ""))
      if operands.length = 2 then
        sayError "Only one string may be given when deleting without squeezing repeats.\n"
      referToHelp 1
  let set_ := fun (text : String) => do
    match setParts (text.length + 1) text.toList with
    | .ok parts => return parts
    | .error reason => fail 1 reason
  let first ← set_ ((line.operands[0]?).getD "")
  let second ← (line.operands[1]?).mapM set_
  let plain := first.flatMap (SetPart.signsOf 0)
  let source := if complement then allSigns.filter (!plain.contains ·) else plain
  let length := fun (parts : List SetPart) => (parts.flatMap (SetPart.signsOf 0)).length
  let goal := fun (parts : List SetPart) =>
    parts.flatMap (SetPart.signsOf (source.length - length parts))
  let translates := !deletes && second.isSome
  if translates then
    let parts := second.getD []
    for part in parts do
      if let .named name _ := part then
        let isCase := name = "upper" || name = "lower"
        if !isCase then
          fail 1 ("when translating, the only character classes that may appear in\n" ++
            "string2 are 'upper' and 'lower'")
    if !line.has "t" && (goal parts).isEmpty && !source.isEmpty then
      fail 1 "when not truncating set1, string2 must be non-empty"
  let targets := goal (second.getD [])
  let targets :=
    if line.has "t" then targets
    else targets ++ List.replicate (source.length - targets.length) ((targets.getLast?).getD ' ')
  let pairs := (source.zip targets).reverse
  let change := fun (c : Char) => if translates then (pairs.lookup c).getD c else c
  let changed : Array Char := (allSigns.map change).toArray
  let isSource : Array Bool := (allSigns.map source.contains).toArray
  let squeezed := if second.isSome then (second.getD []).flatMap (SetPart.signsOf 0) else source
  let isSqueezed : Array Bool :=
    (allSigns.map fun c => squeezes && (if translates then targets else squeezed).contains c).toArray
  let rec pass : Nat → Option Char → Tool Unit
    | 0, _ => return
    | fuel + 1, last => do
      match ← readSome 0 65536 with
      | .error cause => fail 1 ("read error: " ++ reasonOf cause)
      | .ok data =>
        if data.size = 0 then return
        let (last, shown) := (Octets.ofBytes data).foldl (fun (last, shown) c =>
          if deletes && (isSource[c.toNat]?).getD false then (last, shown)
          else
            let d := (changed[c.toNat]?).getD c
            if last = some d && (isSqueezed[d.toNat]?).getD false then (last, shown)
            else (some d, d :: shown)) (last, ([] : List Char))
        put shown.reverse
        pass fuel last
  pass endless none
  return 0

end StyleTokens.Shell.Tool

/-
Programs that pass on what they read, or write without reading.

* `Tool.cat`, `Tool.head`, `Tool.tail`, `Tool.tee` — files as they are, or a part;
* `Tool.yes`, `Tool.seq` — output of their own;
* `Feed` — a stream that is read line by line, and what of it was read but not given out;
* `Feed.next` — the next line.

Design notes: a stream is read in portions and not to its end, as it may have none.
-/
import StyleTokens.Shell.Format
import StyleTokens.Shell.Tool.Line
import StyleTokens.Shell.Tool.Number

namespace StyleTokens.Shell.Tool

/-- How many times endless programs repeat themselves. -/
def endless : Nat := 0x40000000

/-! Whole files -/

/-- How `cat` shows what it passes on. -/
structure Showing where
  numbers : Bool := false
  /-- Whether lines without signs have no numbers. -/
  filledOnly : Bool := false
  ends : Bool := false
  tabs : Bool := false
  others : Bool := false
  squeezed : Bool := false
  deriving DecidableEq, Repr, Inhabited

/-- Where `cat` is between two signs. -/
structure Position where
  line : Nat := 0
  /-- Whether a line has begun. -/
  inLine : Bool := false
  /-- How many lines without signs came last. -/
  blanks : Nat := 0
  deriving Inhabited

/-- A sign in the notation that shows it. -/
def visible (showing : Showing) (c : Char) : List Char :=
  let plain := fun (n : Nat) =>
    if n < 32 then ['^', Char.ofNat (n + 64)] else if n = 127 then ['^', '?'] else [Char.ofNat n]
  if c = '\t' then if showing.tabs then ['^', 'I'] else [c]
  else if !showing.others || c = '\n' then [c]
  else if c.toNat < 128 then plain c.toNat
  else 'M' :: '-' :: plain (c.toNat - 128)

/-- What is shown of a sign, and where that leads. -/
def Showing.step (showing : Showing) (position : Position) (c : Char) : Position × List Char :=
  let start := !position.inLine
  if c = '\n' then
    if start && showing.squeezed && 0 < position.blanks then
      ({ position with blanks := position.blanks + 1 }, [])
    else
      let counts := start && showing.numbers && !showing.filledOnly
      let line := if counts then position.line + 1 else position.line
      let label := if counts then inWidth 6 (toString line) ++ "\t" else ""
      ({ line, inLine := false, blanks := if start then position.blanks + 1 else 0 },
        label.toList ++ (if showing.ends then ['$', '\n'] else ['\n']))
  else
    let counts := start && showing.numbers
    let line := if counts then position.line + 1 else position.line
    let label := if counts then inWidth 6 (toString line) ++ "\t" else ""
    ({ line, inLine := true }, label.toList ++ visible showing c)

/-- What is shown of signs, and where that leads. -/
def Showing.pass (showing : Showing) (position : Position) (octets : List Char) :
    Position × List Char :=
  let (position, shown) := octets.foldl (fun (position, shown) c =>
    let (position, signs) := showing.step position c
    (position, signs :: shown)) (position, [])
  (position, shown.reverse.flatten)

/-- Whether a file is written to behind where it is read. -/
def isOwnOutput (id stream : Nat) (world : World) : Bool :=
  match world.stream? id stream, world.stream? id 1 with
  | some (_, source), some (_, goal) =>
    match source.target with
    | .file _ =>
      let size := ((world.data? goal.target).map ByteArray.size).getD 0
      source.target = goal.target && source.offset < (if goal.appends then size else goal.offset)
    | _ => false
  | _, _ => false

/-- Passes on a stream, portion by portion. -/
def passOn (plain : Bool) (showing : Showing) (stream : Nat) :
    (fuel : Nat) → Position → Tool (Except IoCause Unit × Position)
  | 0, position => return (.ok (), position)
  | fuel + 1, position => do
    match ← readSome stream 131072 with
    | .error cause => return (.error cause, position)
    | .ok data =>
      if data.size = 0 then return (.ok (), position)
      if plain then
        writeOut (Octets.ofBytes data)
        if (← get).failure.isSome then stop 1
        passOn plain showing stream fuel position
      else
        let (position, shown) := showing.pass position (Octets.ofBytes data)
        put shown
        passOn plain showing stream fuel position

/-- Writes files one after another. -/
def cat : Tool Nat := do
  let table : OptionTable := {
    letters := "benstuvAET"
    names := [
      ("number-nonblank", .nothing, "b"), ("number", .nothing, "n"),
      ("squeeze-blank", .nothing, "s"), ("show-nonprinting", .nothing, "v"),
      ("show-ends", .nothing, "E"), ("show-tabs", .nothing, "T"), ("show-all", .nothing, "A")] }
  let step := fun (showing : Showing) (name _ : String) => pure <|
    match name with
    | "b" => { showing with numbers := true, filledOnly := true }
    | "n" => { showing with numbers := true }
    | "s" => { showing with squeezed := true }
    | "v" => { showing with others := true }
    | "E" => { showing with ends := true }
    | "T" => { showing with tabs := true }
    | "e" => { showing with ends := true, others := true }
    | "t" => { showing with tabs := true, others := true }
    | "A" => { showing with ends := true, tabs := true, others := true }
    | _ => showing
  let (showing, operands) ← options table 1 ({} : Showing) step
  let plain := showing = {}
  let id := (← read).id
  let (_, status) ← (orInput operands).foldlM (fun (position, status) operand => do
    match ← openInput operand with
    | .error cause =>
      warn (refusal operand cause)
      return (position, 1)
    | .ok stream =>
      if ← look (isOwnOutput id stream) then
        warn (Naming.needed operand ++ ": input file is output file")
        closeInput stream
        return (position, 1)
      let (result, position) ← passOn plain showing stream endless position
      closeInput stream
      match result with
      | .ok _ => return (position, status)
      | .error cause =>
        warn (refusal operand cause)
        return (position, 1)) ((({} : Position), 0))
  return status

/-! Parts of files -/

/-- How much of a file is passed on. -/
structure Portion where
  count : Nat := 10
  bytes : Bool := false
  /-- Whether the count is that of what is left out. -/
  inverted : Bool := false
  /-- Whether names are never or always shown. -/
  names : Option Bool := none
  ended : Char := '\n'
  deriving Inhabited

/-- Goes on with the file of a stream from another place, if it has places. -/
def seekBack (stream count : Nat) : Tool Unit := do
  let id := (← read).id
  act (Act.alter fun world =>
    match world.stream? id stream with
    | some (number, file) =>
      match file.target with
      | .file _ | .nameless _ => world.setFile number { file with offset := file.offset - count }
      | _ => world
    | none => world)

/-- The octets up to so many ends of lines, and what comes after them; and how many are
still missing. -/
def takeLines (ended : Char) : (count : Nat) → List Char → List Char → List Char × List Char × Nat
  | 0, before, rest => (before.reverse, rest, 0)
  | count, before, [] => (before.reverse, [], count)
  | count + 1, before, c :: rest =>
    if c = ended then takeLines ended count (c :: before) rest
    else takeLines ended (count + 1) (c :: before) rest

/-- Passes on so many lines or bytes of a stream. -/
def passFirst (portion : Portion) (stream : Nat) : (fuel count : Nat) → Tool (Except IoCause Unit)
  | 0, _ => return .ok ()
  | fuel + 1, count => do
    if count = 0 then return .ok ()
    let limit := if portion.bytes then min 8192 count else 8192
    match ← readSome stream limit with
    | .error cause => return .error cause
    | .ok data =>
      if data.size = 0 then return .ok ()
      if portion.bytes then
        put (Octets.ofBytes data)
        if (← get).failure.isSome then return .ok ()
        passFirst portion stream fuel (count - data.size)
      else
        let (taken, rest, count) := takeLines portion.ended count [] (Octets.ofBytes data)
        put taken
        seekBack stream rest.length
        if count = 0 || (← get).failure.isSome then return .ok ()
        passFirst portion stream fuel count

/-- All lines of a text with their ends. -/
def endedLines (ended : Char) (octets : List Char) : List (List Char) :=
  let all := octets.splitOn ended
  let lines := all.dropLast.map (· ++ [ended])
  match all.getLast? with
  | some last => if last.isEmpty then lines else lines ++ [last]
  | none => lines

/-- Shows the name of a file in front of its text. -/
def header (operand : String) (first : Bool) : Tool Unit := do
  let name := if operand = "-" then "standard input" else operand
  say ((if first then "" else "\n") ++ "==> " ++ name ++ " <==\n")

/-- The count of `head` or `tail` behind a letter. -/
def readPortion (portion : Portion) (bytes : Bool) (value : String) (special : Char) : Tool Portion := do
  let (inverted, body) :=
    match value.toList with
    | c :: rest => if c = special then (true, rest) else (false, c :: rest)
    | [] => (false, [])
  let body := if special = '+' && !inverted && body.head? = some '-' then body.drop 1 else body
  match Number.sized? body with
  | some count => return { portion with count, bytes, inverted }
  | none =>
    fail 1 ("invalid number of " ++ (if bytes then "bytes" else "lines") ++ ": " ++
      Naming.marked value)

/-- The options of `head` and `tail`. -/
def portionOptions (more : String) : OptionTable := {
  letters := "c:n:qvz" ++ more
  names := [
    ("bytes", .value, "c"), ("lines", .value, "n"), ("quiet", .nothing, "q"),
    ("silent", .nothing, "q"), ("verbose", .nothing, "v"), ("zero-terminated", .nothing, "z"),
    ("follow", .optional, "f")] }

/-- One more option of `head` or `tail`. -/
def portionStep (special : Char) (portion : Portion) (name value : String) : Tool Portion :=
  match name with
  | "c" => readPortion portion true value special
  | "n" => readPortion portion false value special
  | "q" => return { portion with names := some false }
  | "v" => return { portion with names := some true }
  | "z" => return { portion with ended := Char.ofNat 0 }
  | _ => return portion

/-- A first argument that is a count, as options. -/
def spelledCount : List String → List String
  | argument :: rest =>
    match argument.toList with
    | '-' :: c :: more =>
      if c.isDigit then
        let digits := (c :: more).takeWhile Char.isDigit
        let letters := (c :: more).drop digits.length
        let bytes := letters.contains 'c'
        let others := letters.filter (· ≠ 'c')
        ["-" ++ (if bytes then "c" else "n"), String.ofList digits] ++
          (if others.isEmpty then [] else ["-" ++ String.ofList others]) ++ rest
      else argument :: rest
    | _ => argument :: rest
  | [] => []

/-- Passes on a part of each operand. -/
def parts (portion : Portion) (operands : List String)
    (pass : (stream : Nat) → Tool (Except IoCause Unit)) : Tool Nat := do
  let operands := orInput operands
  let named := portion.names.getD (1 < operands.length)
  let (_, status) ← operands.foldlM (fun (first, status) operand => do
    let shown := if operand = "-" then "standard input" else operand
    match ← openInput operand with
    | .error cause =>
      warn ("cannot open " ++ Naming.always operand ++ " for reading: " ++ reasonOf cause)
      return (first, 1)
    | .ok stream =>
      if named then header operand first
      let result ← pass stream
      closeInput stream
      match result with
      | .ok _ => return (false, status)
      | .error cause =>
        warn ("error reading " ++ Naming.always shown ++ ": " ++ reasonOf cause)
        return (false, 1)) (true, 0)
  return status

/-- Passes on the start of files. -/
def head : Tool Nat :=
  calling (fun call => { call with arguments := spelledCount call.arguments }) do
    let (portion, operands) ← options (portionOptions "") 1 ({} : Portion) (portionStep '-')
    parts portion operands fun stream => do
      if !portion.inverted then return ← passFirst portion stream endless portion.count
      match ← readAll stream with
      | .error cause => return .error cause
      | .ok data =>
        let octets := Octets.ofBytes data
        if portion.bytes then put (octets.take (octets.length - portion.count))
        else
          let lines := endedLines portion.ended octets
          put (lines.take (lines.length - portion.count)).flatten
        return .ok ()

/-- Passes on the end of files. -/
def tail : Tool Nat :=
  calling (fun call => { call with arguments := spelledCount call.arguments }) do
    let line := (portionOptions "fF").line (← read).arguments
    let (portion, operands) ←
      options (portionOptions "fF") 1 ({} : Portion) (portionStep '+')
    let status ← parts portion operands fun stream => do
      match ← readAll stream with
      | .error cause => return .error cause
      | .ok data =>
        let octets := Octets.ofBytes data
        if portion.bytes then
          put (octets.drop (if portion.inverted then portion.count - 1 else octets.length - portion.count))
        else
          let lines := endedLines portion.ended octets
          put (lines.drop
            (if portion.inverted then portion.count - 1 else lines.length - portion.count)).flatten
        return .ok ()
    if line.has "f" || line.has "F" then
      flush
      act (Act.await fun _ => none)
    return status

/-- Writes what is read to files and to the standard output. -/
def tee : Tool Nat := do
  let table : OptionTable := {
    letters := "aip"
    names := [("append", .nothing, "a"), ("ignore-interrupts", .nothing, "i")] }
  let line ← line table 1
  let appends := line.has "a"
  let id := (← read).id
  let (streams, status) ← line.operands.foldlM (fun (streams, status) operand => do
    let how : Opening := { writes := true, creates := true, empties := !appends, appends }
    match ← openFile operand how with
    | .ok stream => return (streams ++ [stream], status)
    | .error cause =>
      warn (refusal operand cause)
      return (streams, 1)) (([] : List Nat), 0)
  let rec copy : Nat → Tool (Except IoCause Unit)
    | 0 => return .ok ()
    | fuel + 1 => do
      match ← readSome 0 8192 with
      | .error cause => return .error cause
      | .ok data =>
        if data.size = 0 then return .ok ()
        writeOut (Octets.ofBytes data)
        for stream in streams do
          discard (act (Act.write id stream data))
        copy fuel
  match ← copy endless with
  | .ok _ => return status
  | .error cause =>
    warn ("read error: " ++ reasonOf cause)
    return 1

/-! Output without input -/

/-- Writes a line again and again. -/
def yes : Tool Nat := do
  let line ← line {} 1
  let text := if line.operands.isEmpty then "y" else " ".intercalate line.operands
  let block := (List.replicate (blockSize / (text.length + 1) + 1) (text ++ "\n").toList).flatten
  let rec again : Nat → Tool Unit
    | 0 => return
    | fuel + 1 => do
      writeOut block
      match (← get).failure with
      | none => again fuel
      | some cause =>
        sayError ("yes: standard output: " ++ reasonOf cause ++ "\n")
        modify fun output => { output with failure := none }
        stop 1
  again endless
  return 1

/-- The numbers from one to another, each written in its way. -/
def count (last step : Int) (write : Int → Bool → Tool Unit) : (fuel : Nat) → Int → Bool → Tool Bool
  | 0, _, _ => return false
  | fuel + 1, n, first => do
    if (if 0 < step then last < n else n < last) then return !first
    write n first
    if (← get).failure.isSome then return false
    count last step write fuel (n + step) false

/-- An argument that starts with a dash and is a number, so that it is no option. -/
def isNegative (argument : String) : Bool :=
  match argument.toList with
  | '-' :: c :: _ => c.isDigit || c = '.'
  | _ => false

/-- The arguments with two dashes before a negative number that comes before all
operands. -/
def guarded : List String → List String
  | [] => []
  | argument :: rest =>
    if argument = "--" then argument :: rest
    else if isNegative argument then "--" :: argument :: rest
    else if !argument.startsWith "-" then argument :: rest
    else
      match rest with
      | value :: rest =>
        if ["-s", "-f", "--separator", "--format"].contains argument then
          argument :: value :: guarded rest
        else argument :: guarded (value :: rest)
      | [] => [argument]

/-- Writes numbers at even distances. -/
def seq : Tool Nat :=
  calling (fun call => { call with arguments := guarded call.arguments }) do
    let table : OptionTable := {
      letters := "f:s:w", inOrder := true
      names := [
        ("format", .value, "f"), ("separator", .value, "s"), ("equal-width", .nothing, "w")] }
    let line ← line table 1
    let decimal := fun (operand : String) => do
      match Decimal.read? operand.toList with
      | some found => return found
      | none => misuse 1 ("invalid floating point argument: " ++ Naming.marked operand)
    let (first, step, last) ←
      match line.operands with
      | [] => misuse 1 "missing operand"
      | [last] => do pure ((⟨1, 0⟩ : Decimal), (⟨1, 0⟩ : Decimal), ← decimal last)
      | [first, last] => do pure (← decimal first, (⟨1, 0⟩ : Decimal), ← decimal last)
      | [first, step, last] => do pure (← decimal first, ← decimal step, ← decimal last)
      | _ :: _ :: _ :: extra :: _ => misuse 1 ("extra operand " ++ Naming.marked extra)
    if step.digits = 0 then
      misuse 1 ("invalid Zero increment value: " ++ Naming.marked ((line.operands[1]?).getD ""))
    let places := max first.places step.places
    let all := max places last.places
    let separator := ((line.last? "s").getD "\n").toList
    let shift : Int := (Nat.pow 10 (all - places) : Nat)
    let start := first.scaled all
    let stop_ := last.scaled all
    let final := start + Int.tdiv (stop_ - start) (step.scaled all) * step.scaled all
    let width := max (Decimal.text (Int.tdiv start shift) places).length
      (Decimal.text (Int.tdiv final shift) places).length
    let text := fun (n : Int) =>
      let plain := Decimal.text (Int.tdiv n shift) places
      match line.last? "f" with
      | some format => (Format.written format [String.ofList plain]).1
      | none =>
        if line.has "w" then
          let filling := List.replicate (width - plain.length) '0'
          match plain with
          | '-' :: digits => '-' :: filling ++ digits
          | digits => filling ++ digits
        else plain
    let some_ ← count stop_ (step.scaled all)
      (fun n first => put ((if first then [] else separator) ++ text n)) endless start true
    if some_ then put ['\n']
    return 0

/-! Line by line -/

/-- A stream that is read line by line. -/
structure Feed where
  stream : Nat
  /-- The sign behind every line. -/
  ended : Char := '\n'
  /-- Bytes that are read at a time. -/
  portion : Nat := 32768
  /-- Lines that were read but not given out. -/
  lines : List (List Char) := []
  /-- The start of a line that was not read to its end, the last portion first. -/
  start : List (List Char) := []
  /-- Whether the end of the stream was seen. -/
  isOver : Bool := false
  /-- Whether a zero was read. -/
  hasZero : Bool := false
  deriving Inhabited

namespace Feed

/-- How much was read but not given out. -/
def remaining (feed : Feed) : Nat :=
  (feed.lines.map fun line => line.length + 1).foldl (· + ·) 0 +
    (feed.start.map List.length).foldl (· + ·) 0

/-- The feed with one more portion. -/
def add (feed : Feed) (octets : List Char) : Feed :=
  let hasZero := feed.hasZero || octets.contains (Char.ofNat 0)
  match octets.splitOn feed.ended with
  | [] => feed
  | [part] => { feed with hasZero, start := part :: feed.start }
  | first :: others =>
    let line := (first :: feed.start).reverse.flatten
    let last := (others.getLast?).getD []
    { feed with
      hasZero, lines := line :: others.dropLast, start := if last.isEmpty then [] else [last] }

/-- The next line without its end, and whether it has one; none behind the last. -/
def nextWithin : (fuel : Nat) → Feed → Tool (Except IoCause (Option (List Char × Bool)) × Feed)
  | 0, feed => return (.ok none, feed)
  | fuel + 1, feed => do
    match feed.lines with
    | line :: lines => return (.ok (some (line, true)), { feed with lines })
    | [] =>
      if feed.isOver then
        if feed.start.isEmpty then return (.ok none, feed)
        return (.ok (some (feed.start.reverse.flatten, false)), { feed with start := [] })
      match ← readSome feed.stream feed.portion with
      | .error cause => return (.error cause, { feed with isOver := true })
      | .ok data =>
        if data.size = 0 then nextWithin fuel { feed with isOver := true }
        else nextWithin fuel (feed.add (Octets.ofBytes data))

/-- The next line without its end, and whether it has one; none behind the last. -/
def next (feed : Feed) : Tool (Except IoCause (Option (List Char × Bool)) × Feed) :=
  feed.nextWithin endless

end Feed

end StyleTokens.Shell.Tool

/-
The program that edits texts line by line.

* `Editor` — the lines that are read, the text that is edited, and what is kept;
* `Editor.carryOut` — an instruction;
* `Editor.cycle` — a line, from its reading to its output;
* `Tool.sed` — the program.

Design notes: whether a line is the last one is known only by looking at the next, which
may be in another file.  The end of the last line may be missing; it is written as soon
as something follows.
-/
import StyleTokens.Shell.Editing.Reader
import StyleTokens.Shell.Tool.File
import StyleTokens.Shell.Tool.Stream

namespace StyleTokens.Shell.Tool

open Editing

/-- A text without the end of its last line, and whether it had one. -/
structure Held where
  signs : List Char := []
  ended : Bool := true
  deriving Inhabited

/-- Where lines are written to. -/
inductive Sink
  /-- The standard output, or the file that is edited in its place. -/
  | main
  | stream (number : Nat)
  deriving DecidableEq, Repr, Inhabited

/-- How lines are edited. -/
structure Manner where
  script : Editing.Script
  silent : Bool
  ended : Char := '\n'
  /-- Whether every file has its own lines. -/
  separate : Bool := false
  /-- What the name of an old file gets if files are edited in their places. -/
  inPlace : Option String := none
  width : Nat := 70

/-- The lines that are read, the text that is edited, and what is kept. -/
structure Editor where
  space : Held := {}
  hold : Held := {}
  /-- What is written behind the line. -/
  later : List (List Char) := []
  replaced : Bool := false
  line : Nat := 0
  /-- The ranges in which the line is, by the numbers of their instructions, each with
  the number of its last line if that is known. -/
  ranges : List (Nat × Option Nat) := []
  /-- The expression that was looked for last. -/
  needle : Option Needle := none
  /-- Files that were not opened. -/
  files : List String := []
  feed : Option Feed := none
  name : String := "-"
  /-- The next line. -/
  ahead : Option Held := none
  /-- Open files by their paths, and where they lead. -/
  sinks : List (String × Sink) := []
  /-- The files from which single lines are taken. -/
  sources : List (String × Feed) := []
  /-- Where the end of the last line is missing. -/
  owing : List Sink := []
  /-- What was written to the file that is edited in its place. -/
  written : List (List Char) := []
  status : Nat := 0

/-- What comes after an instruction. -/
inductive After
  /-- The instruction of a number. -/
  | go (number : Nat)
  /-- The next line, and whether this one is shown. -/
  | line (shown : Bool)
  /-- The first instruction, with what is left of the line. -/
  | again
  /-- The end of the program. -/
  | over (status : Nat) (shown : Bool)

/-- Tells of a problem; what was collected stays. -/
def complain (text : String) : Tool Unit := do
  sayError ((← read).name ++ ": " ++ text ++ "\n")

/-- Tells of a problem and ends the program. -/
def breakOff {α : Type} (status : Nat) (text : String) : Tool α := do
  complain text
  stop status

namespace Editor

/-! Output -/

/-- Writes octets. -/
def writeTo (manner : Manner) (editor : Editor) (sink : Sink) (octets : List Char) : Tool Editor := do
  match sink with
  | .main =>
    if manner.inPlace.isSome then return { editor with written := octets :: editor.written }
    put octets
    return editor
  | .stream number =>
    discard (act (Act.write (← read).id number (Octets.toBytes octets)))
    return editor

/-- Writes octets behind a line that is ended. -/
def writeRaw (manner : Manner) (editor : Editor) (sink : Sink) (octets : List Char) : Tool Editor := do
  if editor.owing.contains sink then
    let editor := { editor with owing := editor.owing.filter (· ≠ sink) }
    editor.writeTo manner sink (manner.ended :: octets)
  else editor.writeTo manner sink octets

/-- Writes a text as lines. -/
def writeHeld (manner : Manner) (editor : Editor) (sink : Sink) (held : Held) : Tool Editor := do
  let editor ← editor.writeRaw manner sink (held.signs ++ if held.ended then [manner.ended] else [])
  return if held.ended then editor else { editor with owing := sink :: editor.owing }

/-- Writes what comes behind the line. -/
def writeLater (manner : Manner) (editor : Editor) : Tool Editor := do
  let editor ← editor.later.reverse.foldlM (fun (editor : Editor) octets =>
    if octets.isEmpty then return editor else editor.writeRaw manner .main octets) editor
  return { editor with later := [] }

/-- Where the path of an output leads. -/
def sinkOf (editor : Editor) (path : String) : Sink :=
  if path = "/dev/stdout" then .main
  else if path = "/dev/stderr" then .stream 2
  else (editor.sinks.lookup path).getD .main

/-- The editor with a file for output. -/
def withSink (editor : Editor) (path : String) : Tool Editor := do
  if path = "/dev/stdout" || path = "/dev/stderr" || (editor.sinks.lookup path).isSome then
    return editor
  match ← openFile path { writes := true, creates := true, empties := true } with
  | .ok number => return { editor with sinks := (path, .stream number) :: editor.sinks }
  | .error cause => breakOff 4 ("couldn't open file " ++ path ++ ": " ++ reasonOf cause)

/-! Input -/

/-- Puts what was written in the place of the file. -/
def finishFile (manner : Manner) (editor : Editor) : Tool Editor := do
  match manner.inPlace with
  | none => return editor
  | some suffix =>
    let call ← read
    let path := editor.name
    let data := Octets.toBytes editor.written.reverse.flatten
    let name := lastName path
    let directory := String.ofList (path.toList.take (path.length - name.length))
    let backup :=
      if suffix.contains '*' then
        let new := String.intercalate name (suffix.splitOn "*")
        if new.contains '/' then new else directory ++ new
      else path ++ suffix
    let done ← update fun world =>
      match world.entryAt call.id call.here false path with
      | .ok (some place, entry) =>
        let mode := world.modeOf place entry
        let replace := fun (world : World) =>
          let world := if entry.isDirectory then world else (world.unlink place).put place (.file data)
          match entry with
          | .link _ => world
          | _ => world.setMode place mode
        if suffix.isEmpty then (replace world, true)
        else
          match (world.diskFrom call.here).find false (pathOf backup) with
          | .ok (.at goal _) => (replace (world.rename place goal), true)
          | .ok (.absent parent name) => (replace (world.rename place (parent ++ [name])), true)
          | .error _ => (world, false)
      | _ => (world, true)
    if !done then breakOff 4 ("cannot rename " ++ path ++ ": No such file or directory")
    return { editor with written := [], owing := editor.owing.filter (· ≠ .main) }

/-- Closes the file that was read to its end. -/
def closeFile (manner : Manner) (editor : Editor) : Tool Editor := do
  match editor.feed with
  | none => return editor
  | some feed =>
    closeInput feed.stream
    let editor ← editor.finishFile manner
    return { editor with feed := none, line := if manner.separate then 0 else editor.line }

/-- Opens the next file; what cannot be read is told and left out. -/
def openNext (manner : Manner) : (files : List String) → Editor → Tool Editor
  | [], editor => return { editor with files := [] }
  | path :: files, editor => do
    let isRegular ←
      if manner.inPlace.isNone then pure true
      else
        let call ← read
        look fun world =>
          match world.entryAt call.id call.here true path with
          | .ok (_, .file _) | .error _ => true
          | _ => false
    if !isRegular then
      breakOff 4 ("couldn't edit " ++ path ++ ": not a regular file")
    else
      match ← (if manner.inPlace.isSome then openFile path { reads := true } else openInput path) with
      | .ok stream =>
        let feed : Feed := { stream, ended := manner.ended, portion := 4096 }
        return { editor with files, feed := some feed, name := path }
      | .error cause =>
        complain ("can't read " ++ path ++ ": " ++ reasonOf cause)
        openNext manner files { editor with status := 2 }

/-- The editor with the next line, if there is one; `crossing` tells that it may be in
another file.  `fuel` is above the number of files. -/
def fill (manner : Manner) (crossing : Bool) : (fuel : Nat) → Editor → Tool Editor
  | 0, editor => return editor
  | fuel + 1, editor => do
    if editor.ahead.isSome then return editor
    match editor.feed with
    | none =>
      if editor.files.isEmpty || !crossing then return editor
      fill manner crossing fuel (← openNext manner editor.files editor)
    | some feed =>
      match ← feed.next with
      | (.ok (some (signs, ended)), feed) =>
        return { editor with feed := some feed, ahead := some { signs, ended } }
      | (.ok none, feed) =>
        let editor := { editor with feed := some feed }
        if !crossing then return editor
        fill manner crossing fuel (← editor.closeFile manner)
      | (.error cause, _) =>
        breakOff 4 ("read error on " ++ editor.name ++ ": " ++ reasonOf cause)

/-- The editor with the next line, if it is known to be there. -/
def peek (manner : Manner) (editor : Editor) : Tool Editor :=
  editor.fill manner (!manner.separate) (editor.files.length + 3)

/-- Whether there is no next line. -/
def isLast (manner : Manner) (editor : Editor) : Tool (Bool × Editor) := do
  let editor ← editor.peek manner
  return (editor.ahead.isNone, editor)

/-- Takes the next line in the place of the text, or behind it; and whether there was
one. -/
def take (manner : Manner) (appended : Bool) (editor : Editor) : Tool (Bool × Editor) := do
  let editor ← editor.writeLater manner
  let editor ← editor.fill manner true (2 * editor.files.length + 3)
  match editor.ahead with
  | none => return (false, editor)
  | some next =>
    let signs := if appended then editor.space.signs ++ manner.ended :: next.signs else next.signs
    return (true, { editor with
      space := { signs, ended := next.ended }, ahead := none, line := editor.line + 1
      replaced := false })

/-! Lines -/

/-- The expression of a needle; an empty one is the last that was looked for. -/
def expressionOf (manner : Manner) (editor : Editor) (needle : Needle) :
    Tool (Expression × Needle × Editor) := do
  match needle.expression, editor.needle with
  | some expression, _ => return (expression, needle, { editor with needle := some needle })
  | none, some last => return (last.expression.getD .empty, last, editor)
  | none, none => breakOff 1 (manner.script.place ++ "no previous regular expression")

/-- The text as it is searched. -/
def subject (editor : Editor) (needle : Needle) : Expression.Subject :=
  { signs := editor.space.signs.toArray, folded := needle.folded, byLine := needle.byLine }

/-- Whether the line is meant by an address. -/
def isAt (manner : Manner) (editor : Editor) : Address → Tool (Bool × Editor)
  | .line number => return (editor.line = number, editor)
  | .every first step =>
    return (first ≤ editor.line && (editor.line - first) % step = 0, editor)
  | .last => editor.isLast manner
  | .found needle => do
    let (expression, needle, editor) ← editor.expressionOf manner needle
    return ((expression.find? (editor.subject needle) 0).isSome, editor)

/-- The editor in a range or out of it. -/
def withRange (editor : Editor) (number : Nat) (range : Option (Option Nat)) : Editor :=
  let others := editor.ranges.filter (·.1 ≠ number)
  { editor with
    ranges :=
      match range with
      | some last => (number, last) :: others
      | none => others }

/-- Whether an instruction is for the line, without regard to its inversion. -/
def isMeant (manner : Manner) (editor : Editor) (number : Nat) (selection : Selection) :
    Tool (Bool × Editor) := do
  match selection.first, selection.limit with
  | none, _ => return (true, editor)
  | some first, none => editor.isAt manner first
  | some first, some limit =>
    match editor.ranges.lookup number with
    | some (some last) =>
      let editor := if last ≤ editor.line then editor.withRange number none else editor
      return (editor.line ≤ last, editor)
    | some none =>
      match limit with
      | .address address =>
        let (isEnd, editor) ← editor.isAt manner address
        return (true, if isEnd then editor.withRange number none else editor)
      | _ => return (true, editor)
    | none =>
      let (isStart, editor) ← editor.isAt manner first
      if !isStart then return (false, editor)
      let last :=
        match limit with
        | .address (.line last) => some last
        | .lines count => some (editor.line + count)
        | .multiple divisor =>
          some (if divisor = 0 then editor.line else (editor.line / divisor + 1) * divisor)
        | .address _ => none
      if last.any (· ≤ editor.line) then return (true, editor)
      return (true, editor.withRange number (some last))

/-! Instructions -/

/-- The text of a match. -/
def groupText (signs : Array Char) (start : Nat) (spot : Expression.Spot) (number : Nat) : List Char :=
  if number = 0 then (signs.extract start spot.place).toList
  else
    match spot.groups.lookup number with
    | some (low, high) => (signs.extract low high).toList
    | none => []

/-- A text with its matches replaced, from a place on; `made` is what comes before, the
last part first, `count` the number of the next match, `last` the end of the one before
and `done` whether one was replaced.  Gives the parts and whether one was replaced. -/
def replaceFrom (substitution : Substitution) (expression : Expression)
    (subject : Expression.Subject) : (fuel : Nat) → (made : List (List Char)) →
    (place count : Nat) → (last : Option Nat) → (done : Bool) → List (List Char) × Bool
  | 0, made, place, _, _, done =>
    ((subject.signs.extract place subject.signs.size).toList :: made, done)
  | fuel + 1, made, place, count, last, done =>
    let signs := subject.signs
    match expression.find? subject place with
    | none => ((signs.extract place signs.size).toList :: made, done)
    | some (start, spot) =>
      let made := (signs.extract place start).toList :: made
      if start = spot.place && last = some start then
        match signs[start]? with
        | none => (made, done)
        | some c =>
          replaceFrom substitution expression subject fuel ([c] :: made) (start + 1) count none done
      else if count < substitution.from_ then
        let made := (signs.extract start spot.place).toList :: made
        replaceFrom substitution expression subject fuel made spot.place (count + 1)
          (some spot.place) done
      else
        let new := Piece.join (groupText signs start spot) none .same substitution.replacement
        if substitution.all then
          replaceFrom substitution expression subject fuel (new :: made) spot.place (count + 1)
            (some spot.place) true
        else ((signs.extract spot.place signs.size).toList :: new :: made, true)

/-- Carries out a substitution. -/
def substitute (manner : Manner) (editor : Editor) (substitution : Substitution) : Tool Editor := do
  let (expression, needle, editor) ← editor.expressionOf manner substitution.needle
  let subject := editor.subject needle
  let (made, done) :=
    replaceFrom substitution expression subject (2 * subject.signs.size + 2) [] 0 1 none false
  if !done then return editor
  let signs := made.reverse.flatten
  let editor := { editor with space := { editor.space with signs }, replaced := true }
  let editor ← if substitution.prints then editor.writeHeld manner .main editor.space else pure editor
  match substitution.output with
  | some path => editor.writeHeld manner (editor.sinkOf path) editor.space
  | none => return editor

/-- A sign as it is shown. -/
def shownSign (c : Char) : List Char :=
  if c = '\\' then ['\\', '\\'] else if Naming.isShown c then [c] else Naming.escape c

/-- A text with all signs shown, in lines of a width. -/
def shownText (width : Nat) : (used : Nat) → List Char → List Char
  | _, [] => ['$', '\n']
  | used, c :: rest =>
    let shown := shownSign c
    if 0 < width && width - 1 < used + shown.length then
      '\\' :: '\n' :: shown ++ shownText width shown.length rest
    else shown ++ shownText width (used + shown.length) rest

/-- The text up to the first end of a line in it, and what comes behind that. -/
def firstLine (manner : Manner) (signs : List Char) : List Char × Option (List Char) :=
  let line := signs.takeWhile (· ≠ manner.ended)
  (line, if line.length < signs.length then some (signs.drop (line.length + 1)) else none)

/-- Takes a line of a file that is written behind the line. -/
def takeLine (manner : Manner) (editor : Editor) (path : String) : Tool Editor := do
  let feed? ←
    match editor.sources.lookup path with
    | some feed => pure (some feed)
    | none => do
      match ← openFile path { reads := true } with
      | .ok stream => pure (some ({ stream, ended := manner.ended } : Feed))
      | .error _ => pure none
  match feed? with
  | none => return editor
  | some feed =>
    let (result, feed) ← feed.next
    let editor := { editor with sources := (path, feed) :: editor.sources.filter (·.1 ≠ path) }
    match result with
    | .ok (some (signs, ended)) =>
      return { editor with later := (signs ++ if ended then [manner.ended] else []) :: editor.later }
    | _ => return editor

/-- Carries out an instruction of a number. -/
def carryOut (manner : Manner) (editor : Editor) (number : Nat) (instruction : Instruction) :
    Tool (After × Editor) := do
  let on := fun (editor : Editor) => (After.go (number + 1), editor)
  let script := manner.script
  let jump := fun (label : String) =>
    After.go ((script.labels.lookup label).getD script.instructions.size)
  match instruction.action with
  | .block _ | .nothing => return on editor
  | .append text => return on { editor with later := text :: editor.later }
  | .insert text =>
    return on (← if text.isEmpty then pure editor else editor.writeRaw manner .main text)
  | .change text =>
    let inRange := instruction.selection.limit.isSome && (editor.ranges.lookup number).isSome
    let editor ←
      if text.isEmpty || inRange then pure editor else editor.writeRaw manner .main text
    return (.line false, editor)
  | .jump label => return (jump label, editor)
  | .jumpIf replaced label =>
    let editor' := { editor with replaced := false }
    return if editor.replaced = replaced then (jump label, editor') else on editor'
  | .delete => return (.line false, editor)
  | .deleteLine =>
    match firstLine manner editor.space.signs with
    | (_, none) => return (.line false, editor)
    | (_, some rest) => return (.again, { editor with space := { editor.space with signs := rest } })
  | .print => return on (← editor.writeHeld manner .main editor.space)
  | .printLine =>
    let (line, _) := firstLine manner editor.space.signs
    return on (← editor.writeHeld manner .main { signs := line })
  | .number => return on (← editor.writeRaw manner .main (toString editor.line ++ "\n").toList)
  | .name => return on (← editor.writeRaw manner .main (editor.name ++ "\n").toList)
  | .show width =>
    let shown := shownText (width.getD manner.width) 0 editor.space.signs
    return on (← editor.writeRaw manner .main shown)
  | .next =>
    let (isLast, editor) ← editor.isLast manner
    if isLast then return (.line true, editor)
    let editor ←
      if manner.silent then pure editor else editor.writeHeld manner .main editor.space
    let (_, editor) ← editor.take manner false
    return on editor
  | .nextAppended =>
    let (isLast, editor) ← editor.isLast manner
    if isLast then return (.line true, editor)
    let (_, editor) ← editor.take manner true
    return on editor
  | .quit status prints => return (.over status prints, editor)
  | .get appended =>
    let signs := editor.hold.signs
    let space : Held :=
      if appended then { editor.hold with signs := editor.space.signs ++ manner.ended :: signs }
      else editor.hold
    return on { editor with space }
  | .hold appended =>
    let signs := editor.space.signs
    let hold : Held :=
      if appended then { editor.space with signs := editor.hold.signs ++ manner.ended :: signs }
      else editor.space
    return on { editor with hold }
  | .exchange => return on { editor with space := editor.hold, hold := editor.space }
  | .empty => return on { editor with space := { editor.space with signs := [] } }
  | .substitute substitution => return on (← editor.substitute manner substitution)
  | .translate signs =>
    let translated := editor.space.signs.map fun c => (signs.lookup c).getD c
    return on { editor with space := { editor.space with signs := translated } }
  | .readFile path =>
    match ← (if path = "-" then pure (.error .notFound) else contents path) with
    | .ok data => return on { editor with later := Octets.ofBytes data :: editor.later }
    | .error _ => return on editor
  | .readLine path => return on (← editor.takeLine manner path)
  | .write path => return on (← editor.writeHeld manner (editor.sinkOf path) editor.space)
  | .writeLine path =>
    let (line, _) := firstLine manner editor.space.signs
    return on (← editor.writeHeld manner (editor.sinkOf path) { signs := line })

/-- Carries out the instructions from one on. -/
def run (manner : Manner) : (fuel : Nat) → (number : Nat) → Editor → Tool (After × Editor)
  | 0, _, editor => return (.line true, editor)
  | fuel + 1, number, editor => do
    match manner.script.instructions[number]? with
    | none => return (.line true, editor)
    | some instruction =>
      let (isMeant, editor) ← editor.isMeant manner number instruction.selection
      if isMeant = instruction.selection.inverted then
        match instruction.action with
        | .block stop => run manner fuel stop editor
        | _ => run manner fuel (number + 1) editor
      else
        match ← editor.carryOut manner number instruction with
        | (.go number, editor) => run manner fuel number editor
        | (after, editor) => return (after, editor)

/-- Shows the line if it is to be shown, and what comes behind it. -/
def finishLine (manner : Manner) (shown : Bool) (editor : Editor) : Tool Editor := do
  let editor ←
    if shown && !manner.silent then editor.writeHeld manner .main editor.space else pure editor
  editor.writeLater manner

/-- All lines, one after another; `fresh` tells that the next one is read first. -/
def cycle (manner : Manner) : (fuel : Nat) → (fresh : Bool) → Editor → Tool Editor
  | 0, _, editor => return editor
  | fuel + 1, fresh, editor => do
    let (isThere, editor) ← if fresh then editor.take manner false else pure (true, editor)
    if !isThere || (← get).failure.isSome then return editor
    match ← editor.run manner endless 0 with
    | (.go _, editor) => return editor
    | (.line shown, editor) => cycle manner fuel true (← editor.finishLine manner shown)
    | (.again, editor) => cycle manner fuel false (← editor.finishLine manner false)
    | (.over status shown, editor) =>
      let editor ← editor.finishLine manner shown
      if let some feed := editor.feed then
        if manner.inPlace.isNone && feed.stream = 0 then
          let ahead := (editor.ahead.map fun held => held.signs.length + 1).getD 0
          seekBack 0 (feed.remaining + ahead)
      let editor ← editor.finishFile manner
      return { editor with status }

/-- The files that a script writes to. -/
def outputs (script : Editing.Script) : List String :=
  script.instructions.toList.filterMap fun instruction =>
    match instruction.action with
    | .write path | .writeLine path => some path
    | .substitute substitution => substitution.output
    | _ => none

/-- The ranges that begin before the first line. -/
def earlyRanges (script : Editing.Script) : List (Nat × Option Nat) :=
  let numbers := List.range script.instructions.size
  (numbers.zip script.instructions.toList).filterMap fun (number, instruction) =>
    match instruction.selection.first with
    | some (.line 0) => some (number, none)
    | _ => none

end Editor

/-- What the options say about editing. -/
structure EditOptions where
  parts : List (Origin × List Char) := []
  silent : Bool := false
  extended : Bool := false
  separate : Bool := false
  inPlace : Option String := none
  ended : Char := '\n'
  width : Nat := 70
  arguments : Nat := 0

namespace EditOptions

/-- The options. -/
def table : OptionTable := {
  letters := "nrEsuzbe:f:i::l:"
  names := [
    ("quiet", .nothing, "n"), ("silent", .nothing, "n"), ("regexp-extended", .nothing, "E"),
    ("separate", .nothing, "s"), ("unbuffered", .nothing, "u"), ("null-data", .nothing, "z"),
    ("zero-terminated", .nothing, "z"), ("expression", .value, "e"), ("file", .value, "f"),
    ("in-place", .optional, "i"), ("line-length", .value, "l"), ("posix", .nothing, "posix"),
    ("binary", .nothing, "b"), ("debug", .nothing, "debug"), ("sandbox", .nothing, "sandbox"),
    ("follow-symlinks", .nothing, "follow")] }

/-- The options with one more part of the script. -/
def withArgument (options : EditOptions) (signs : String) : EditOptions :=
  let number := options.arguments + 1
  { options with
    arguments := number, parts := options.parts ++ [(.argument number, signs.toList)] }

/-- The options with one more. -/
def withOption (options : EditOptions) (name value : String) : Tool EditOptions := do
  match name with
  | "n" => return { options with silent := true }
  | "r" | "E" => return { options with extended := true }
  | "s" => return { options with separate := true }
  | "z" => return { options with ended := Char.ofNat 0 }
  | "i" => return { options with inPlace := some value, separate := true }
  | "l" =>
    let digits := value.toList.takeWhile Char.isDigit
    return { options with width := (Number.natural? digits).getD 0 }
  | "e" => return options.withArgument value
  | "f" =>
    match ← contents value with
    | .ok data =>
      return { options with parts := options.parts ++ [(.file value, Octets.ofBytes data)] }
    | .error cause => breakOff 4 ("couldn't open file " ++ value ++ ": " ++ reasonOf cause)
  | _ => return options

end EditOptions

/-- Edits texts line by line. -/
def sed : Tool Nat := do
  let line := EditOptions.table.line (← read).arguments
  let usage : Tool (EditOptions × List String) := do
    sayError "Usage: sed [OPTION]... \x7bscript-only-if-no-other-script\x7d [input-file]...\n\n"
    stop 1
  let options ← line.options.foldlM (fun (options : EditOptions) (name, value) =>
    options.withOption name (value.getD "")) {}
  let (options, operands) ←
    match line.problem with
    | some problem =>
      complain problem
      usage
    | none =>
      if !options.parts.isEmpty then pure (options, line.operands)
      else
        match line.operands with
        | script :: operands => pure (options.withArgument script, operands)
        | [] => usage
  match Editing.read { extended := options.extended } options.parts with
  | .error flaw => breakOff flaw.status flaw.message
  | .ok script =>
    if operands.isEmpty && options.inPlace.isSome then breakOff 4 "no input files"
    let manner : Manner := {
      script, silent := options.silent || script.silent, ended := options.ended
      separate := options.separate, inPlace := options.inPlace, width := options.width }
    let editor : Editor := {
      files := orInput operands, ranges := Editor.earlyRanges script }
    let editor ← (Editor.outputs script).foldlM Editor.withSink editor
    let editor ← editor.cycle manner endless true
    flush
    if let some cause := (← get).failure then
      modify fun output => { output with failure := none }
      let verb := if cause = .badStream then "close" else "flush"
      breakOff 4 ("couldn't " ++ verb ++ " stdout: " ++ reasonOf cause)
    return editor.status

end StyleTokens.Shell.Tool

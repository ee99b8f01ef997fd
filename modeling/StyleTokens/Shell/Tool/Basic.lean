/-
Programs that shell commands call.

* `Call` — what a program is called with;
* `Tool` — what a program does, up to its status;
* `Tool.put`, `Tool.warn` — output, which is collected, and complaints;
* `Tool.openInput`, `Tool.readAll` — input;
* `Tool.toAct` — a whole program as an act;
* `Naming.always` — a name in quotes, such that a shell would read it back;
* `Naming.needed` — the same, but only if it has signs that a shell would not leave
  alone, or a colon;
* `Naming.marked` — a text in quotes with backslashes in front of what is special.

Design notes: output is collected and written in blocks, as the shell cannot see it
before; a complaint lets what was collected out first.  Names in messages are octet texts, and
bytes above 127 are no signs that can be shown.
-/
import StyleTokens.Shell.Task

namespace StyleTokens.Shell.Naming

/-- Whether a sign can be shown. -/
def isShown (c : Char) : Bool :=
  32 ≤ c.toNat && c.toNat < 127

/-- The three octal digits of a sign. -/
def octal (c : Char) : List Char :=
  let n := c.toNat
  [n / 64, n / 8 % 8, n % 8].map fun digit => Char.ofNat (48 + digit)

/-- What a sign that cannot be shown is written as. -/
def escape (c : Char) : List Char :=
  match [(7, 'a'), (8, 'b'), (9, 't'), (10, 'n'), (11, 'v'), (12, 'f'), (13, 'r')].lookup c.toNat with
  | some letter => ['\\', letter]
  | none => '\\' :: octal c

/-- Signs that a shell does not leave alone. -/
def specialSigns : List Char :=
  " !\"$&()*;<=>?[\\^\u0060|".toList

/-- Whether a text has to be quoted for a shell. -/
def needsQuotes (colon : Bool) (text : List Char) : Bool :=
  let start := (text.head?.map fun c => c = '#' || c = '~').getD true
  start || text = ['\x7b'] || text = ['\x7d'] || text.any fun c =>
    specialSigns.contains c || c = '\'' || !isShown c || (colon && c = ':')

/-- The inside of a text in single quotes; `escaping` says that the last sign was
escaped. -/
def quoted : (escaping : Bool) → List Char → List Char
  | escaping, [] => if escaping then [] else ['\'']
  | escaping, c :: rest =>
    if isShown c then
      let start := if escaping then ['\'', '\''] else []
      start ++ (if c = '\'' then "'\\''".toList else [c]) ++ quoted false rest
    else
      let start := if escaping then [] else "'$'".toList
      start ++ escape c ++ (if rest.head?.any (!isShown ·) then [] else ['\'']) ++ closed rest
where
  /-- What comes after an escape. -/
  closed : List Char → List Char
    | [] => []
    | c :: rest => if isShown c then '\'' :: quoted false (c :: rest) else quoted true (c :: rest)

/-- A text in the quotes that suit it. -/
def inQuotes (text : List Char) : List Char :=
  let isPlain := fun (c : Char) => c = ' ' ||
    (isShown c && !specialSigns.contains c && !"\x7b\x7d#~".toList.contains c)
  if text.contains '\'' && text.all isPlain then '"' :: text ++ ['"']
  else '\'' :: quoted false text

/-- A name in quotes. -/
def always (name : String) : String :=
  String.ofList (inQuotes name.toList)

/-- A name, in quotes if it needs them. -/
def needed (name : String) : String :=
  if needsQuotes true name.toList then always name else name

/-- A text in quotes with escapes. -/
def marked (text : String) : String :=
  let sign := fun (c : Char) =>
    if c = '\'' || c = '\\' then ['\\', c] else if isShown c then [c] else escape c
  "'" ++ String.ofList (text.toList.flatMap sign) ++ "'"

end StyleTokens.Shell.Naming

namespace StyleTokens.Shell

/-- What a program is called with. -/
structure Call where
  /-- The name of the program in its messages. -/
  name : String
  id : Nat
  here : Place
  environment : List (String × String)
  /-- Permissions that new files do not get. -/
  mask : Nat
  arguments : List String
  /-- Puts another program in the place of a process; goes on only if that fails. -/
  start : (id : Nat) → (environment : List (String × String)) → (arguments : List String) →
    Act IoCause

/-- What a program has written but not let out, in reverse. -/
structure Output where
  pending : List (List Char) := []
  size : Nat := 0
  /-- Why something could not be written. -/
  failure : Option IoCause := none
  deriving Inhabited

/-- What a program does; it may end early with a status. -/
abbrev Tool := ReaderT Call (ExceptT Nat (StateT Output Act))

namespace Tool

/-- An act within a program. -/
def act {α : Type} (act : Act α) : Tool α := fun _ =>
  ExceptT.lift (StateT.lift act)

/-- The program with another call. -/
def calling {α : Type} (change : Call → Call) (tool : Tool α) : Tool α := fun call =>
  tool (change call)

/-- Ends the program. -/
def stop {α : Type} (status : Nat) : Tool α :=
  throw status

/-- A view of the world. -/
def look {α : Type} (view : World → α) : Tool α :=
  act (Act.look view)

/-- A change of the world. -/
def update {α : Type} (change : World → World × α) : Tool α :=
  act (Act.update change)

/-- The disk as the program sees it. -/
def disk : Tool Disk := do
  let here := (← read).here
  look fun world => world.diskFrom here

/-! Output -/

/-- Bytes that are collected before they are let out. -/
def blockSize : Nat := 4096

/-- Writes octets to the standard output at once. -/
def writeOut (octets : List Char) : Tool Unit := do
  if !octets.isEmpty && (← get).failure.isNone then
    match ← act (Act.write (← read).id 1 (Octets.toBytes octets)) with
    | .ok _ => return
    | .error cause => modify fun output => { output with failure := some cause }

/-- Lets out what was collected. -/
def flush : Tool Unit := do
  let octets := (← get).pending.reverse.flatten
  modify fun output => { output with pending := [], size := 0 }
  writeOut octets

/-- Writes octets. -/
def put (octets : List Char) : Tool Unit := do
  modify fun output =>
    { output with pending := octets :: output.pending, size := output.size + octets.length }
  let output ← get
  if blockSize ≤ output.size then
    let all := output.pending.reverse.flatten
    let now := output.size / blockSize * blockSize
    set { output with pending := [all.drop now], size := output.size - now }
    writeOut (all.take now)

/-- Writes a text. -/
def say (text : String) : Tool Unit :=
  put text.toList

/-- Writes a text and ends the line. -/
def sayLine (text : String) : Tool Unit :=
  say (text ++ "\n")

/-- Writes a text to the error stream. -/
def sayError (text : String) : Tool Unit := do
  discard (act (Act.write (← read).id 2 (Octets.toBytes text.toList)))

/-- Tells of a problem. -/
def warn (text : String) : Tool Unit := do
  flush
  sayError ((← read).name ++ ": " ++ text ++ "\n")

/-- Tells of a problem and ends the program. -/
def fail {α : Type} (status : Nat) (text : String) : Tool α := do
  warn text
  stop status

/-- Points to the help and ends the program. -/
def referToHelp {α : Type} (status : Nat) : Tool α := do
  sayError ("Try '" ++ (← read).name ++ " --help' for more information.\n")
  stop status

/-- Tells of a problem with the arguments and ends the program. -/
def misuse {α : Type} (status : Nat) (text : String) : Tool α := do
  warn text
  referToHelp status

/-- Carries out an action for every item, with the greatest of the statuses. -/
def forAll {α : Type} (items : List α) (action : α → Tool Nat) : Tool Nat :=
  items.foldlM (fun status item => do return max status (← action item)) 0

/-! Input -/

/-- Opens what a path leads to, at a stream that is free. -/
def openFile (path : String) (how : Opening) : Tool (Except IoCause Nat) := do
  let call ← read
  update fun world =>
    match world.openPath call.id call.here path how with
    | (world, .error cause) => (world, .error cause)
    | (world, .ok number) =>
      let stream := world.freeStream call.id 3
      (world.connect call.id stream number, .ok stream)

/-- Opens what an operand leads to; a dash is the standard input. -/
def openInput (operand : String) : Tool (Except IoCause Nat) := do
  if operand = "-" then return .ok 0 else openFile operand { reads := true }

/-- Closes a stream. -/
def close (stream : Nat) : Tool Unit := do
  act (Act.close (← read).id stream)

/-- Closes what was opened for an operand. -/
def closeInput (stream : Nat) : Tool Unit := do
  if 2 < stream then close stream

/-- Reads at most so many bytes. -/
def readSome (stream limit : Nat) : Tool (Except IoCause ByteArray) := do
  act (Act.read (← read).id stream limit)

/-- Reads all bytes of a stream. -/
def readAll (stream : Nat) : Tool (Except IoCause ByteArray) := do
  act (Act.readAll (← read).id stream Act.portionLimit .empty)

/-- The bytes of an operand. -/
def contents (operand : String) : Tool (Except IoCause ByteArray) := do
  match ← openInput operand with
  | .error cause => return .error cause
  | .ok stream =>
    let data ← readAll stream
    closeInput stream
    return data

/-- The operands, or the standard input without any. -/
def orInput (operands : List String) : List String :=
  if operands.isEmpty then ["-"] else operands

/-- A refusal behind the name of an operand. -/
def refusal (operand : String) (cause : IoCause) : String :=
  Naming.needed operand ++ ": " ++ reasonOf cause

/-- Goes through the octets of all operands, with a message about those that are refused;
gives what was made of them, and the status. -/
def overInputs {σ : Type} (operands : List String) (start : σ)
    (step : σ → String → List Char → Tool σ)
    (message : String → IoCause → String := refusal) : Tool (σ × Nat) :=
  (orInput operands).foldlM (fun (made, status) operand => do
    match ← contents operand with
    | .ok data => return (← step made operand (Octets.ofBytes data), status)
    | .error cause =>
      warn (message operand cause)
      return (made, 1)) (start, 0)

/-- Whether a path is that of a directory. -/
def isDirectory (path : String) : Tool Bool := do
  let call ← read
  look fun world =>
    match world.entryAt call.id call.here true path with
    | .ok (_, .directory) => true
    | _ => false

/-! Texts -/

/-- The lines of a text, without their ends, and whether the last one is ended. -/
def linesOf (octets : List Char) : List (List Char) × Bool :=
  let all := octets.splitOn '\n'
  if all.getLast? = some [] then (all.dropLast, true) else (all, false)

/-- A number in a width. -/
def inWidth (width : Nat) (text : String) : String :=
  String.ofList (List.replicate (width - text.length) ' ') ++ text

/-! Whole programs -/

/-- Lets all out and tells if that was not possible; `failed` is the status then. -/
def finish (failed : Nat) : Tool Unit := do
  flush
  if let some cause := (← get).failure then
    sayError ((← read).name ++ ": write error: " ++ reasonOf cause ++ "\n")
    stop failed

/-- A program as an act.  `failed` is its status if it could not write. -/
def toAct (tool : Tool Nat) (failed : Nat) (call : Call) : Act Nat := do
  let run := fun (tool : Tool Nat) (output : Output) => (tool.run call).run.run output
  let (result, output) ← run tool {}
  let status :=
    match result with
    | .ok status | .error status => status
  let (result, _) ← run (do finish failed; return status) output
  match result with
  | .ok status | .error status => return status

end Tool

end StyleTokens.Shell

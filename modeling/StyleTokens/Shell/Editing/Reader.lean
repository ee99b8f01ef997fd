/-
Scripts for editing as they are written.

* `Editing.Origin` — where a part of a script comes from;
* `Editing.Reader` — what is left of a part, and what was read before it;
* `Editing.read` — a whole script, or a complaint.

Design notes: a complaint tells how many signs of a part were taken, or in which line
of a file it ended, so signs are taken one by one.  A text at the end of an instruction
may go on in the next part.
-/
import StyleTokens.Shell.Editing.Basic
import StyleTokens.Shell.Expression.Reader

namespace StyleTokens.Shell.Editing

/-- Where a part of a script comes from. -/
inductive Origin
  | argument (number : Nat)
  | file (path : String)
  deriving DecidableEq, Repr, Inhabited

/-- What stands in front of a complaint. -/
def Origin.place (origin : Origin) (taken line : Nat) : String :=
  match origin with
  | .argument number => "-e expression #" ++ toString number ++ ", char " ++ toString taken ++ ": "
  | .file path => "file " ++ path ++ " line " ++ toString line ++ ": "

/-- Why a script is none. -/
structure Flaw where
  message : String
  status : Nat
  deriving Inhabited

/-- What is left of a part, and what was read before it. -/
structure Reader where
  form : Expression.Form
  origin : Origin := .argument 1
  rest : List Char := []
  taken : Nat := 0
  line : Nat := 1
  /-- Whether no part was read before. -/
  isFirst : Bool := true
  script : Script := {}
  /-- The numbers of the blocks that are open, with what a complaint about them says. -/
  blocks : List (Nat × String) := []
  labels : List String := []
  /-- Whether a text goes on in the next part. -/
  goesOn : Bool := false
  deriving Inhabited

/-- A step of reading. -/
abbrev Read := StateT Reader (Except Flaw)

namespace Read

/-- Takes the next sign. -/
def next : Read (Option Char) := do
  let reader ← get
  match reader.rest with
  | [] => return none
  | c :: rest =>
    let line := if c = '\n' then reader.line + 1 else reader.line
    set { reader with rest, taken := reader.taken + 1, line }
    return some c

/-- Puts a sign back. -/
def back : Option Char → Read Unit
  | none => return
  | some c => modify fun reader =>
    let line := if c = '\n' then reader.line - 1 else reader.line
    { reader with rest := c :: reader.rest, taken := reader.taken - 1, line }

/-- Complains. -/
def wrong {α : Type} (text : String) : Read α := do
  let reader ← get
  throw { message := reader.origin.place reader.taken reader.line ++ text, status := 1 }

/-- Complains without a place. -/
def broken {α : Type} (text : String) : Read α :=
  throw { message := text, status := 4 }

/-- Whether a sign is a blank. -/
def isBlank (c : Char) : Bool :=
  c = ' ' || c = '\t'

/-- Whether a sign is a blank or ends a line. -/
def isSpace (c : Char) : Bool :=
  c = ' ' || (9 ≤ c.toNat && c.toNat ≤ 13)

/-- Takes signs as long as they are good. -/
def takeWhile (isGood : Char → Bool) : Read (List Char) := do
  let found := (← get).rest.takeWhile isGood
  for _ in found do
    discard next
  return found

/-- Takes the next sign that is no blank. -/
def nextFilled : Read (Option Char) := do
  discard (takeWhile isBlank)
  next

/-- A number whose first digit was taken. -/
def number (first : Char) : Read Nat := do
  let digits ← takeWhile Char.isDigit
  return (first :: digits).foldl (fun n c => n * 10 + (c.toNat - 48)) 0

/-- A number behind blanks; it is zero if there is none. -/
def optionalNumber : Read Nat := do
  match ← nextFilled with
  | some c =>
    if c.isDigit then number c
    else
      back (some c)
      return 0
  | none => return 0

/-- Takes the end of an instruction. -/
def instructionEnd : Read Unit := do
  match ← nextFilled with
  | none => return
  | some c =>
    if c = '\x7d' || c = '#' then back (some c)
    else if c ≠ '\n' && c ≠ ';' then wrong "extra characters after command"

/-- Takes a label. -/
def label : Read String := do
  discard (takeWhile isBlank)
  return String.ofList (← takeWhile fun c => !isSpace c && c ≠ ';' && c ≠ '\x7d')

/-- Takes the name of a file, up to the end of the line. -/
def fileName : Read String := do
  discard (takeWhile isBlank)
  let name ← takeWhile (· ≠ '\n')
  discard next
  if name.isEmpty then wrong "missing filename in r/R/w/W commands"
  return String.ofList name

/-! Escapes -/

/-- A number of so many digits at most, with what comes after it. -/
def digitsOf (base count : Nat) (text : List Char) : Option (Nat × List Char) :=
  let value := fun (c : Char) =>
    if c.isDigit then c.toNat - 48 else c.toLower.toNat - 87
  let isDigit := fun (c : Char) =>
    (c.isDigit || ('a' ≤ c.toLower && c.toLower ≤ 'f')) && value c < base
  let digits := (text.take count).takeWhile isDigit
  if digits.isEmpty then none
  else some (digits.foldl (fun n c => n * base + value c) 0 % 256, text.drop digits.length)

/-- The sign that an escape stands for, behind the backslash, and what comes after it. -/
def escape? : List Char → Option (Char × List Char)
  | 'a' :: rest => some (Char.ofNat 7, rest)
  | 'f' :: rest => some (Char.ofNat 12, rest)
  | 'n' :: rest => some ('\n', rest)
  | 'r' :: rest => some ('\r', rest)
  | 't' :: rest => some ('\t', rest)
  | 'v' :: rest => some (Char.ofNat 11, rest)
  | 'c' :: c :: rest => some (Char.ofNat (c.toUpper.toNat ^^^ 64), rest)
  | 'd' :: rest => (digitsOf 10 3 rest).map fun (n, rest) => (Char.ofNat n, rest)
  | 'o' :: rest => (digitsOf 8 3 rest).map fun (n, rest) => (Char.ofNat n, rest)
  | 'x' :: rest => (digitsOf 16 2 rest).map fun (n, rest) => (Char.ofNat n, rest)
  | _ => none

/-- A text with the signs that its escapes stand for; other backslashes are dropped, or
kept if the text is an expression.  `fuel` is at least its length. -/
def unescaped (kept : Bool) : (fuel : Nat) → List Char → List Char
  | 0, text => text
  | fuel + 1, '\\' :: rest =>
    match escape? rest, rest with
    | some (c, after), _ =>
      if kept && c = '\\' then '\\' :: '\\' :: unescaped kept fuel after
      else c :: unescaped kept fuel after
    | none, c :: after => if kept then '\\' :: c :: unescaped kept fuel after else c :: unescaped kept fuel after
    | none, [] => if kept then ['\\'] else []
  | fuel + 1, c :: rest => c :: unescaped kept fuel rest
  | _, [] => []

/-! Texts between marks -/

/-- Takes a bracket of an expression behind its first sign, up to the closing one; none
if it is not closed. -/
def bracketRest : Read (Option (List Char)) := do
  let rest := (← get).rest
  let start := (if rest.head? = some '^' then 1 else 0)
  let start := if rest[start]? = some ']' then start + 1 else start
  let rec size : (fuel : Nat) → List Char → Option Nat
    | 0, _ => none
    | _, [] => none
    | fuel + 1, c :: rest =>
      if c = ']' then some 1
      else if c = '\n' then none
      else
        match c, rest with
        | '[', mark :: after =>
          if mark = ':' || mark = '.' || mark = '=' then
            match Expression.marked? mark after with
            | some (name, _) => (size fuel (after.drop (name.length + 2))).map (· + name.length + 4)
            | none => (size fuel rest).map (· + 1)
          else (size fuel rest).map (· + 1)
        | _, _ => (size fuel rest).map (· + 1)
  match size (rest.length + 1) (rest.drop start) with
  | none => return none
  | some count =>
    let rec take : Nat → Read (List Char)
      | 0 => return []
      | n + 1 => do
        match ← next with
        | some c => return c :: (← take n)
        | none => return []
    let found ← take (start + count)
    return some found

/-- A bracket in which the escape of the end of a line stands for it. -/
def lineEnds : List Char → List Char
  | '\\' :: 'n' :: rest => '\n' :: lineEnds rest
  | c :: rest => c :: lineEnds rest
  | [] => []

/-- Takes a text up to a mark; none if the line ends before.  `fuel` is above the number
of signs that are left. -/
def marked (mark : Char) (isExpression : Bool) : (fuel : Nat) → Read (Option (List Char))
  | 0 => return none
  | fuel + 1 => do
    match ← next with
    | none => return none
    | some c =>
      if c = mark then return some []
      if c = '\n' then
        back (some c)
        return none
      if c = '\\' then
        match ← next with
        | none => return none
        | some d =>
          let start :=
            if d = mark then if !isExpression && d = '&' then ['\\', d] else [d]
            else if d = 'n' && isExpression then ['\n']
            else if d = '\n' && isExpression then ['\n']
            else ['\\', d]
          return (← marked mark isExpression fuel).map (start ++ ·)
      if c = '[' && isExpression then
        match ← bracketRest with
        | some inner => return (← marked mark isExpression fuel).map ('[' :: lineEnds inner ++ ·)
        | none =>
          discard (takeWhile (· ≠ '\n'))
          return none
      return (← marked mark isExpression fuel).map (c :: ·)

/-- Takes a text up to a mark; none if the line ends before. -/
def upTo (mark : Option Char) (isExpression : Bool) : Read (Option (List Char)) := do
  match mark with
  | none => return none
  | some mark =>
    if mark = '\n' || mark = '\\' then return none
    marked mark isExpression ((← get).rest.length + 1)

/-- The expression of a text, which has so many groups at least. -/
def needle (text : List Char) (folded byLine : Bool) (groups : Nat) : Read Needle := do
  if text.isEmpty then
    if folded || byLine then wrong "cannot specify modifiers on empty regexp"
    return { expression := none }
  match Expression.read (← get).form (unescaped true text.length text) with
  | .error reason => wrong reason
  | .ok written =>
    if written.bareClass then broken "character class syntax is [[:space:]], not [:space:]"
    if written.groups < groups then
      wrong ("invalid reference \\" ++ toString groups ++ " on \u0060s' command's RHS")
    return { expression := some written.expression, folded, byLine }

/-! Addresses -/

/-- The letters behind the expression of an address. -/
def addressFlags : (fuel : Nat) → (folded byLine : Bool) → Read (Bool × Bool)
  | 0, folded, byLine => return (folded, byLine)
  | fuel + 1, folded, byLine => do
    match ← nextFilled with
    | some 'I' => addressFlags fuel true byLine
    | some 'M' => addressFlags fuel folded true
    | other =>
      back other
      return (folded, byLine)

/-- An address that starts with a sign. -/
def address? (c : Char) : Read (Option Address) := do
  if c = '/' || c = '\\' then
    let mark ← if c = '\\' then next else pure (some c)
    match ← upTo mark true with
    | none => wrong "unterminated address regex"
    | some text =>
      let (folded, byLine) ← addressFlags ((← get).rest.length + 1) false false
      return some (.found (← needle text folded byLine 0))
  else if c.isDigit then
    let first ← number c
    match ← nextFilled with
    | some '~' =>
      let step ← optionalNumber
      return some (if step = 0 then .line first else .every first step)
    | other =>
      back other
      return some (.line first)
  else if c = '$' then return some .last
  else return none

/-- The end of a range that starts with a sign. -/
def limit? (c : Char) : Read (Option Limit) := do
  if c = '+' then return some (.lines (← optionalNumber))
  else if c = '~' then return some (.multiple (← optionalNumber))
  else return (← address? c).map .address

/-- The lines that an instruction is for, given its first sign; and the first sign
behind that. -/
def selection (c : Char) : Read (Selection × Option Char) := do
  if c = '+' || c = '~' then
    discard optionalNumber
    wrong "invalid usage of +N or ~N as first address"
  match ← address? c with
  | none => invert {} (some c)
  | some first =>
    match ← nextFilled with
    | some ',' =>
      let limit ←
        match ← nextFilled with
        | none => pure none
        | some c => limit? c
      if limit.isNone then wrong "unexpected \u0060,'"
      let mark ← nextFilled
      match first, limit with
      | .line 0, some (.address (.found _)) => pure ()
      | .line 0, _ => wrong "invalid usage of line address 0"
      | _, _ => pure ()
      invert { first, limit } mark
    | mark =>
      if let .line 0 := first then wrong "invalid usage of line address 0"
      invert { first } mark
where
  /-- Takes the sign that turns a selection round. -/
  invert (selection : Selection) (mark : Option Char) : Read (Selection × Option Char) := do
    if mark ≠ some '!' then return (selection, mark)
    let mark ← nextFilled
    if mark = some '!' then wrong "multiple \u0060!'s"
    return ({ selection with inverted := true }, mark)

/-! Instructions -/

/-- Takes lines of a text up to one whose end is not escaped, and whether the part ends
behind a backslash. -/
def textLines : (fuel : Nat) → Read (List Char × Bool)
  | 0 => return ([], false)
  | fuel + 1 => do
    match ← next with
    | none => return (['\n'], false)
    | some '\n' => return (['\n'], false)
    | some '\\' =>
      match ← next with
      | none => return (['\n'], true)
      | some c =>
        let (rest, goesOn) ← textLines fuel
        return ('\\' :: c :: rest, goesOn)
    | some c =>
      let (rest, goesOn) ← textLines fuel
      return (c :: rest, goesOn)

/-- Takes the lines of a text. -/
def text : Read (List Char) := do
  let (found, goesOn) ← textLines ((← get).rest.length + 1)
  modify fun reader => { reader with goesOn }
  return unescaped false found.length found

/-- Takes a text behind the letter of its instruction. -/
def textArgument : Read (List Char) := do
  match ← nextFilled with
  | none => wrong "expected \\ after \u0060a', \u0060c' or \u0060i'"
  | some '\\' =>
    match ← next with
    | none =>
      modify fun reader => { reader with goesOn := true }
      return []
    | some '\n' => text
    | some c =>
      back (some c)
      text
  | some c =>
    back (some c)
    text

/-- The pieces of a replacement; `fuel` is at least the length of the text. -/
def pieces : (fuel : Nat) → (before : List Char) → List Char → List Piece
  | 0, before, _ => [.text before.reverse]
  | _, before, [] => [.text before.reverse]
  | fuel + 1, before, '&' :: rest => .text before.reverse :: .group 0 :: pieces fuel [] rest
  | fuel + 1, before, '\\' :: c :: rest =>
    let special : Option Piece :=
      if c.isDigit then some (.group (c.toNat - 48))
      else
        match c with
        | 'U' => some (.casing .upper)
        | 'L' => some (.casing .lower)
        | 'E' => some (.casing .same)
        | 'u' => some (.next .upper)
        | 'l' => some (.next .lower)
        | _ => none
    match special, escape? (c :: rest) with
    | some piece, _ => .text before.reverse :: piece :: pieces fuel [] rest
    | none, some (d, after) => pieces fuel (d :: before) after
    | none, none => pieces fuel (c :: before) rest
  | fuel + 1, before, c :: rest => pieces fuel (c :: before) rest

/-- The greatest number of a group in a replacement. -/
def groupsIn (pieces : List Piece) : Nat :=
  pieces.foldl (fun most piece =>
    match piece with
    | .group number => max most number
    | _ => most) 0

/-- The letters behind a replacement. -/
structure Flags where
  folded : Bool := false
  byLine : Bool := false
  prints : Bool := false
  all : Bool := false
  from_ : Option Nat := none
  output : Option String := none

/-- Takes the letters behind a replacement. -/
def flags : (fuel : Nat) → Flags → Read Flags
  | 0, found => return found
  | fuel + 1, found => do
    match ← next with
    | none => return found
    | some c =>
      if c = '\n' || c = ';' then return found
      if c = '\x7d' || c = '#' then
        back (some c)
        return found
      if c.isDigit then
        if found.from_.isSome then wrong "multiple number options to \u0060s' command"
        let count ← number c
        if count = 0 then wrong "number option to \u0060s' command may not be zero"
        return ← flags fuel { found with from_ := some count }
      match c with
      | ' ' | '\t' => flags fuel found
      | 'i' | 'I' => flags fuel { found with folded := true }
      | 'm' | 'M' => flags fuel { found with byLine := true }
      | 'e' => flags fuel found
      | 'p' =>
        if found.prints then wrong "multiple \u0060p' options to \u0060s' command"
        flags fuel { found with prints := true }
      | 'g' =>
        if found.all then wrong "multiple \u0060g' options to \u0060s' command"
        flags fuel { found with all := true }
      | 'w' => return { found with output := some (← fileName) }
      | _ => wrong "unknown option to \u0060s'"

/-- Takes what is replaced, and by what. -/
def substitution : Read Substitution := do
  let mark ← next
  let unfinished := "unterminated \u0060s' command"
  match ← upTo mark true with
  | none => wrong unfinished
  | some pattern =>
    match ← upTo mark false with
    | none => wrong unfinished
    | some replacement =>
      let replacement := pieces replacement.length [] replacement
      let found ← flags ((← get).rest.length + 1) {}
      let needle ← needle pattern found.folded found.byLine (groupsIn replacement)
      return {
        needle, replacement, from_ := found.from_.getD 1, all := found.all
        prints := found.prints, output := found.output }

/-- Takes signs and those that are put in their place, the last of each counts. -/
def translation : Read (List (Char × Char)) := do
  let mark ← next
  let unfinished := "unterminated \u0060y' command"
  match ← upTo mark false with
  | none => wrong unfinished
  | some from_ =>
    match ← upTo mark false with
    | none => wrong unfinished
    | some goal =>
      let from_ := unescaped false from_.length from_
      let goal := unescaped false goal.length goal
      if from_.length ≠ goal.length then
        wrong "strings for \u0060y' command are different lengths"
      instructionEnd
      return (from_.zip goal).reverse

/-- Adds an instruction. -/
def add (selection : Selection) (action : Action) : Read Unit :=
  modify fun reader =>
    let script := reader.script
    { reader with
      script := { script with instructions := script.instructions.push { selection, action } } }

/-- Takes what an instruction of a letter does; none if that is known without more. -/
def action (letter : Char) (selection : Selection) : Read Action := do
  let plain := fun (action : Action) => do
    instructionEnd
    return action
  let status := fun (make : Nat → Action) => do
    if selection.limit.isSome then wrong "command only uses one address"
    let status ← optionalNumber
    instructionEnd
    return make status
  let jump := fun (make : String → Action) => do
    let label ← label
    modify fun reader => { reader with labels := label :: reader.labels }
    return make label
  match letter with
  | 'a' => return .append (← textArgument)
  | 'i' => return .insert (← textArgument)
  | 'c' => return .change (← textArgument)
  | 'b' => jump .jump
  | 't' => jump (.jumpIf true)
  | 'T' => jump (.jumpIf false)
  | 'd' => plain .delete
  | 'D' => plain .deleteLine
  | 'p' => plain .print
  | 'P' => plain .printLine
  | '=' => plain .number
  | 'F' => plain .name
  | 'n' => plain .next
  | 'N' => plain .nextAppended
  | 'g' => plain (.get false)
  | 'G' => plain (.get true)
  | 'h' => plain (.hold false)
  | 'H' => plain (.hold true)
  | 'x' => plain .exchange
  | 'z' => plain .empty
  | 'q' => status fun status => .quit status true
  | 'Q' => status fun status => .quit status false
  | 'l' =>
    discard (takeWhile isBlank)
    let digits ← takeWhile Char.isDigit
    let width := digits.foldl (fun n c => n * 10 + (c.toNat - 48)) 0
    instructionEnd
    return .show (if digits.isEmpty then none else some width)
  | 's' => return .substitute (← substitution)
  | 'y' => return .translate (← translation)
  | 'r' => return .readFile (← fileName)
  | 'R' => return .readLine (← fileName)
  | 'w' => return .write (← fileName)
  | 'W' => return .writeLine (← fileName)
  | c => wrong ("unknown command: \u0060" ++ String.singleton c ++ "'")

/-- Takes an instruction that starts with a sign. -/
def instruction (c : Char) : Read Unit := do
  let (selection, mark) ← selection c
  let reader ← get
  let count := reader.script.instructions.size
  match mark with
  | none => wrong "missing command"
  | some '#' =>
    if selection.first.isSome then wrong "comments don't accept any addresses"
    let text ← takeWhile (· ≠ '\n')
    if reader.isFirst && reader.taken = 1 && text.head? = some 'n' then
      modify fun reader => { reader with script := { reader.script with silent := true } }
  | some ':' =>
    if selection.first.isSome then wrong ": doesn't want any addresses"
    let label ← label
    if label = "" then wrong "\":\" lacks a label"
    modify fun reader =>
      { reader with script := { reader.script with labels := reader.script.labels ++ [(label, count)] } }
  | some '\x7b' =>
    let complaint := reader.origin.place 0 reader.line
    modify fun reader => { reader with blocks := (count, complaint) :: reader.blocks }
    add selection (.block 0)
  | some '\x7d' =>
    match reader.blocks with
    | [] => wrong "unexpected \u0060\x7d'"
    | (start, _) :: blocks =>
      if selection.first.isSome then wrong "\u0060\x7d' doesn't want any addresses"
      instructionEnd
      add {} .nothing
      modify fun reader =>
        let instructions := reader.script.instructions.modify start fun instruction =>
          { instruction with action := .block count }
        { reader with blocks, script := { reader.script with instructions } }
  | some 'v' => discard label
  | some letter => add selection (← action letter selection)

/-- The last instruction with a text that is longer. -/
def lengthened (more : List Char) : Action → Action
  | .append text => .append (text ++ more)
  | .insert text => .insert (text ++ more)
  | .change text => .change (text ++ more)
  | other => other

/-- Takes all instructions of a part. -/
def instructions : (fuel : Nat) → Read Unit
  | 0 => return
  | fuel + 1 => do
    discard (takeWhile fun c => isSpace c || c = ';')
    match ← next with
    | none => return
    | some c =>
      instruction c
      instructions fuel

/-- Takes a part of a script. -/
def part (origin : Origin) (signs : List Char) : Read Unit := do
  modify fun reader => { reader with origin, rest := signs, taken := 0, line := 1 }
  if (← get).goesOn then
    let more ← text
    modify fun reader =>
      let last := reader.script.instructions.size - 1
      let instructions := reader.script.instructions.modify last fun instruction =>
        { instruction with action := lengthened more instruction.action }
      { reader with script := { reader.script with instructions } }
  instructions (signs.length + 1)
  modify fun reader => { reader with isFirst := false }

/-- Takes all parts of a script. -/
def script (parts : List (Origin × List Char)) : Read Script := do
  for (origin, signs) in parts do
    part origin signs
  let reader ← get
  if let (_, place) :: _ := reader.blocks then
    throw { message := place ++ "unmatched \u0060\x7b'", status := 1 }
  for label in reader.labels.reverse do
    if label ≠ "" && (reader.script.labels.lookup label).isNone then
      broken ("can't find label for jump to \u0060" ++ label ++ "'")
  return { reader.script with place := reader.origin.place 0 reader.line }

end Read

/-- A whole script, or a complaint. -/
def read (form : Expression.Form) (parts : List (Origin × List Char)) : Except Flaw Script :=
  return (← (Read.script parts).run { form }).1

end StyleTokens.Shell.Editing

/-
Commands of the shell for variables, arguments and options.

* `Run.exportAll` — `export` and `readonly`;
* `Run.unset`, `Run.localize` — `unset` and `local`;
* `Run.set`, `Run.shift`, `Run.getopts` — arguments and options;
* `Run.readLine` — `read`.
-/
import StyleTokens.Shell.Builtin.Basic
import StyleTokens.Shell.Expansion

namespace StyleTokens.Shell.Run

/-- Writes variables in order, each behind a word. -/
def showVariables (word : String) (isShown : Variable → Bool) : Run Unit := do
  let found := (← get).bindings.filter fun (_, found) => isShown found
  let found := found.mergeSort fun a b => decide (a.1 ≤ b.1)
  found.forM fun (name, found) =>
    let value := (found.value.map fun text => "=" ++ inQuotes text).getD ""
    say ((if word = "" then "" else word ++ " ") ++ name ++ value ++ "\n")

/-- The name that an argument gives a value, and the value. -/
def nameAndValue (argument : String) : String × Option String :=
  let name := argument.toList.takeWhile (· ≠ '=')
  let value :=
    if name.length = argument.length then none
    else some (String.ofList (argument.toList.drop (name.length + 1)))
  (String.ofList name, value)

/-- Gives a name a value, or makes a variable without one of it, and marks it. -/
def mark (change : Variable → Variable) (argument : String) : Run Unit := do
  let (name, value?) := nameAndValue argument
  match value?, (← get).bindings.lookup name with
  | some value, _ => assign name value
  | none, some _ => pure ()
  | none, none =>
    if !isName name.toList then fail (name ++ ": bad variable name")
  let found := ((← get).bindings.lookup name).getD {}
  restore name (some (change found))

/-- The commands `export` and `readonly`. -/
def exportAll (word : String) (arguments : List String) : Run Nat := do
  let (options, names) ← letters "p" arguments
  let fixes := word = "readonly"
  if options.isEmpty && !names.isEmpty then
    names.forM (mark fun found =>
      if fixes then { found with fixed := true } else { found with exported := true })
  else showVariables word fun found => if fixes then found.fixed else found.exported
  return 0

/-- Removes a variable. -/
def unsetVariable (name : String) : Run Unit := do
  let (name, _) := nameAndValue name
  if !isName name.toList then fail (name ++ ": bad variable name")
  if (((← get).bindings.lookup name).getD {}).fixed then fail (name ++ ": is read only")
  restore name none

/-- The command `unset`. -/
def unset (arguments : List String) : Run Nat := do
  let (options, names) ← letters "vf" arguments
  if options.getLast?.map (·.1) = some 'f' then
    modify fun process => { process with
      functions := process.functions.filter fun (name, _) => !names.contains name }
  else names.forM unsetVariable
  return 0

/-- Keeps what a name was, so that it is so again when the function is done. -/
def keepAs (name : String) (before : Option Variable) : Run Unit :=
  modify fun process =>
    match process.frames with
    | frame :: frames =>
      if frame.any (·.1 = name) then process
      else { process with frames := ((name, before) :: frame) :: frames }
    | [] => process

/-- Keeps a variable for a function, which may give it a value; a dash keeps the
options. -/
def makeLocal (change : Variable → Variable) (argument : String) : Run Unit := do
  if argument = flagsName then
    keepAs flagsName (some { value := some (String.ofList (← get).flags) })
  else
    let (name, value?) := nameAndValue argument
    if !isName name.toList then fail (name ++ ": bad variable name")
    let before := (← get).bindings.lookup name
    match value? with
    | some value => assign name value
    | none => if before.isNone then restore name (some {})
    let found := ((← get).bindings.lookup name).getD {}
    restore name (some (change found))
    keepAs name before

/-- The command `local`. -/
def localize (arguments : List String) : Run Nat := do
  if (← get).frames.isEmpty then fail "not in a function"
  arguments.forM (makeLocal id)
  return 0

/-! Options of the shell -/

/-- The options with their letters, in the order in which they are listed. -/
def optionNames : List (String × Char) := [
  ("errexit", 'e'), ("noglob", 'f'), ("ignoreeof", 'I'), ("interactive", 'i'), ("monitor", 'm'),
  ("noexec", 'n'), ("stdin", 's'), ("xtrace", 'x'), ("verbose", 'v'), ("vi", 'V'), ("emacs", 'E'),
  ("noclobber", 'C'), ("allexport", 'a'), ("notify", 'b'), ("nounset", 'u'), ("privileged", 'p'),
  ("nolog", '1'), ("debug", '2')]

/-- Turns an option on or off. -/
def setFlag (isOn : Bool) (letter : Char) : Run Unit := do
  if letter.isDigit || !(optionNames.map (·.2)).contains letter then
    fail ("Illegal option -" ++ String.singleton letter)
  turn isOn letter
where
  /-- Notes that an option is on or off. -/
  turn (isOn : Bool) (letter : Char) : Run Unit :=
    modify fun process =>
      let others := process.flags.filter (· ≠ letter)
      { process with flags := if isOn then letter :: others else others }

/-- Turns an option with a name on or off. -/
def setNamed (isOn : Bool) (name : String) : Run Unit := do
  match optionNames.lookup name with
  | some letter => setFlag.turn isOn letter
  | none => fail ("Illegal option -o " ++ name)

/-- Lists the options. -/
def showOptions (readable : Bool) : Run Unit := do
  let flags := (← get).flags
  if readable then say "Current option settings\n"
  optionNames.forM fun (name, letter) =>
    let isOn := flags.contains letter
    if readable then
      let blanks := List.replicate (16 - name.length) ' '
      say (name ++ String.ofList blanks ++ (if isOn then "on" else "off") ++ "\n")
    else say ("set " ++ (if isOn then "-o " else "+o ") ++ name ++ "\n")

/-- The letters of an option argument, one after another; gives the arguments left.
Where `command` is set, a letter for a command is known. -/
def setLetters (command isOn : Bool) (rest : List String) :
    List Char → Run (List String × Bool)
  | [] => return (rest, false)
  | 'o' :: letters => do
    match rest with
    | name :: rest =>
      setNamed isOn name
      setLetters command isOn rest letters
    | [] =>
      showOptions isOn
      setLetters command isOn [] letters
  | letter :: letters => do
    if command && letter = 'c' then
      let (rest, _) ← setLetters command isOn rest letters
      return (rest, true)
    else if command && letter = 'l' then setLetters command isOn rest letters
    else
      setFlag isOn letter
      setLetters command isOn rest letters

/-- How arguments with options end. -/
inductive OptionsEnd
  /-- With an argument that is none. -/
  | plain
  /-- With a dash. -/
  | dash
  /-- With two dashes. -/
  | dashes
  deriving DecidableEq, Repr, Inhabited

/-- Sets options from arguments; gives those left, how the options end, and whether
there is a command.  `fuel` is at least the number of arguments. -/
def setOptions (command : Bool) : (fuel : Nat) → List String →
    Run (List String × OptionsEnd × Bool)
  | 0, arguments => return (arguments, .plain, false)
  | _, [] => return ([], .plain, false)
  | fuel + 1, argument :: rest => do
    match argument.toList with
    | ['-'] => return (rest, .dash, false)
    | ['-', '-'] => return (rest, .dashes, false)
    | sign :: letters =>
      if sign ≠ '-' && sign ≠ '+' then return (argument :: rest, .plain, false)
      let (rest, hasCommand) ← setLetters command (sign = '-') rest letters
      let (rest, ending, later) ← setOptions command fuel rest
      return (rest, ending, hasCommand || later)
    | [] => return (argument :: rest, .plain, false)

/-- Sets the arguments. -/
def setArguments (arguments : List String) : Run Unit :=
  modify fun process => { process with arguments, optionIndex := 1, optionOffset := none }

/-- The command `set`. -/
def set (arguments : List String) : Run Nat := do
  if arguments.isEmpty then
    showVariables "" fun found => found.value.isSome
    return 0
  let (rest, ending, _) ← setOptions false (arguments.length + 1) arguments
  if ending = .dash then
    setFlag.turn false 'x'
    setFlag.turn false 'v'
  if !rest.isEmpty || ending = .dashes then setArguments rest
  return 0

/-- The command `shift`. -/
def shift (arguments : List String) : Run Nat := do
  let count ←
    match arguments with
    | [] => pure 1
    | text :: _ => numberOf text
  let before := (← get).arguments
  if count < 0 || before.length < count then fail "can't shift that many"
  setArguments (before.drop count.toNat)
  return 0

/-! Options of arguments -/

/-- What `getopts` finds: a letter and its value, and where it goes on. -/
structure Found where
  letter : String
  value : Option String := none
  complaint : Option String := none
  index : Nat
  offset : Option Nat := none
  isEnd : Bool := false
  deriving Inhabited

/-- The next option of arguments, from an argument and an offset in it on. -/
def nextOption (known : String) (arguments : List String) (index : Nat) (offset : Option Nat) :
    Found :=
  let quiet := known.startsWith ":"
  let rest :=
    match offset with
    | some offset => if 1 < index then ((arguments[index - 2]?).getD "").toList.drop offset else []
    | none => []
  let here := (arguments[index - 1]?).getD ""
  let atEnd := fun (index : Nat) => ({ letter := "?", index, isEnd := true } : Found)
  let found := fun (index : Nat) (letters : List Char) =>
    match letters with
    | [] => atEnd index
    | letter :: more =>
      let name := String.singleton letter
      let used := ((arguments[index - 2]?).getD "").length
      let goOn := some (used - more.length)
      match takesValue? letter (if quiet then known.toList.drop 1 else known.toList) with
      | none =>
        { letter := "?", index, offset := goOn, value := if quiet then some name else none
          complaint := if quiet then none else some ("Illegal option -" ++ name) }
      | some false => { letter := name, value := some "", index, offset := goOn }
      | some true =>
        if !more.isEmpty then { letter := name, value := some (String.ofList more), index }
        else
          match arguments[index - 1]? with
          | some value => { letter := name, value := some value, index := index + 1 }
          | none =>
            if quiet then { letter := ":", value := some name, index, offset := goOn }
            else { letter := "?", complaint := some ("No arg for -" ++ name ++ " option")
                   index, offset := goOn }
  if !rest.isEmpty then found index rest
  else
    match here.toList with
    | ['-', '-'] => atEnd (index + 1)
    | '-' :: letter :: letters => found (index + 1) (letter :: letters)
    | _ => atEnd index

/-- The command `getopts`. -/
def getopts (arguments : List String) : Run Nat := do
  match arguments with
  | known :: name :: given =>
    let process ← get
    let arguments := if given.isEmpty then process.arguments else given
    let fits := process.optionIndex ≤ arguments.length + 1
    let index := if fits then max process.optionIndex 1 else 1
    let offset := if fits then process.optionOffset else none
    let found := nextOption known arguments index offset
    if let some complaint := found.complaint then
      discard (write 2 (complaint ++ "\n").toList)
      unsetVariable "OPTARG"
    if let some value := found.value then assign "OPTARG" value
    assign "OPTIND" (toString found.index)
    assign name found.letter
    modify fun process => { process with optionIndex := found.index, optionOffset := found.offset }
    return if found.isEnd then 1 else 0
  | _ => fail "Usage: getopts optstring var [arg...]"

/-! Lines -/

/-- The next byte of the standard input, if there is one. -/
def nextByte : Run (Option Char) := do
  match ← act (Act.read (← get).id 0 1) with
  | .ok data => return (Octets.ofBytes data).head?
  | .error _ => return none

/-- The stretches of the next line, in reverse, behind the signs of the current one;
and whether the line has an end.  Unless they are `raw`, backslashes protect signs. -/
def lineStretches (raw : Bool) : (fuel : Nat) → List Stretch → List Char →
    Run (List Stretch × Bool)
  | 0, before, signs => return (stretch signs :: before, false)
  | fuel + 1, before, signs => do
    match ← nextByte with
    | none => return (stretch signs :: before, false)
    | some c =>
      if c = Char.ofNat 0 then lineStretches raw fuel before signs
      else if c = '\n' then return (stretch signs :: before, true)
      else if c = '\\' && !raw then
        match ← nextByte with
        | none => return (stretch signs :: before, false)
        | some '\n' => lineStretches raw fuel (stretch signs :: before) []
        | some d =>
          let fixed : Stretch := { glyphs := [.sign d true] }
          lineStretches raw fuel (fixed :: stretch signs :: before) []
      else lineStretches raw fuel before (c :: signs)
where
  /-- The stretch of signs in reverse. -/
  stretch (signs : List Char) : Stretch :=
    { region := .separators, glyphs := Glyph.ofSigns false signs.reverse }

/-- Gives variables the fields of a line; those without one become empty. -/
def assignFields : List String → List Field → Run Unit
  | [], _ => return
  | name :: names, [] => do
    assign name ""
    assignFields names []
  | name :: names, field :: fields => do
    assign name field.text
    assignFields names fields

/-- The command `read`. -/
def readLine (arguments : List String) : Run Nat := do
  let (options, names) ← letters "p:r" arguments
  if names.isEmpty then fail "arg count"
  let (stretches, isWhole) ← lineStretches (options.any (·.1 = 'r')) wordFuel [] []
  let fields := Stretch.split (← separators) (some names.length) stretches.reverse
  assignFields names fields
  return if isWhole then 0 else 1

end StyleTokens.Shell.Run

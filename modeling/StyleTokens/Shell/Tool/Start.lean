/-
Programs that start others, or wait.

* `Tool.sleep`, `Tool.timeout` — time;
* `Tool.env`, `Tool.printenv` — the environment;
* `Tool.nohup`, `Tool.nice`, `Tool.setsid`, `Tool.stdbuf` — a program under other
  conditions;
* `Tool.xargs` — a program for words that are read;
* `Tool.which` — where programs are.
-/
import StyleTokens.Shell.Format
import StyleTokens.Shell.Signal
import StyleTokens.Shell.Tool.Path

namespace StyleTokens.Shell.Tool

/-! Other programs -/

/-- Starts a program in a process of its own, which prepares itself first; gives its
number. -/
def spawn (environment : List (String × String)) (arguments : List String)
    (prepare : Nat → Act Unit) (refused : Nat → IoCause → Act Nat) : Tool Nat := do
  let call ← read
  act (Act.fork fun id => Act.toTask do
    prepare id
    let cause ← call.start id environment arguments
    refused id cause)

/-- The status of a program that could not be started. -/
def refusedStatus : IoCause → Nat
  | .notFound => 127
  | _ => 126

/-- Writes a message of a process to its error stream. -/
def complainAs (id : Nat) (text : String) : Act Unit := do
  discard (Act.write id 2 (Octets.toBytes (text ++ "\n").toList))

/-- Goes on as another program; `describe` tells why it could not be started. -/
def become (environment : List (String × String)) (arguments : List String)
    (describe : String → String) : Tool Nat := do
  flush
  let call ← read
  let cause ← act (call.start call.id environment arguments)
  let name := Naming.always (arguments.head?.getD "")
  warn (describe name ++ ": " ++ reasonOf cause)
  return refusedStatus cause

/-- Why a program could not be run. -/
def failedToRun (name : String) : String :=
  "failed to run command " ++ name

/-! Time -/

/-- Milliseconds of a length of time with a suffix. -/
def milliseconds? (text : String) : Option Nat := do
  let signs := text.toList
  let (body, factor) :=
    match signs.getLast? with
    | some 's' => (signs.dropLast, 1)
    | some 'm' => (signs.dropLast, 60)
    | some 'h' => (signs.dropLast, 3600)
    | some 'd' => (signs.dropLast, 86400)
    | _ => (signs, 1)
  let reading ← Real.read? body
  if !reading.rest.isEmpty then none
  match reading.value with
  | .infinite false => some 1000000000000
  | .finite false value =>
    let (num, den) := Real.ratio value
    some ((num * factor * 1000 + den - 1) / den)
  | _ => none

/-- Refuses a length of time. -/
def refuseTime {α : Type} (status : Nat) (text : String) : Tool α :=
  misuse status ("invalid time interval " ++ Naming.marked text)

/-- Waits. -/
def sleep : Tool Nat := do
  let line ← line {} 1
  if line.operands.isEmpty then misuse 1 "missing operand"
  let (total, bad) ← line.operands.foldlM (fun (total, bad) operand => do
    match milliseconds? operand with
    | some n => return (total + n, bad)
    | none =>
      warn ("invalid time interval " ++ Naming.marked operand)
      return (total, true)) (0, false)
  if bad then referToHelp 1
  act (Act.sleep (← read).id total)
  return 0

/-- The processes that come from one, and it. -/
def family (world : World) (id : Nat) : List Nat :=
  let step := fun (known : List Nat) =>
    known ++ (world.members.filter fun member =>
      known.contains member.parent && !known.contains member.id).map (·.id)
  (List.range world.members.length).foldl (fun known _ => step known) [id]

/-- Runs a program, and sends it a signal when its time is over. -/
def timeout : Tool Nat := do
  let line ← line {
    letters := "k:s:v", inOrder := true
    names := [
      ("kill-after", .value, "k"), ("signal", .value, "s"), ("verbose", .nothing, "v"),
      ("preserve-status", .nothing, "keep"), ("foreground", .nothing, "fore")] } 125
  let signal ←
    match line.last? "s" with
    | none => pure 15
    | some name =>
      let plain := if name.startsWith "SIG" then String.ofList (name.toList.drop 3) else name
      match Signal.number? 0 plain with
      | some number => pure number
      | none => misuse 125 (Naming.always name ++ ": invalid signal")
  let later ←
    match line.last? "k" with
    | none => pure none
    | some text =>
      match milliseconds? text with
      | some n => pure (some n)
      | none => refuseTime 125 text
  match line.operands with
  | [] | [_] => referToHelp 125
  | length :: arguments =>
    let some limit := milliseconds? length | refuseTime 125 length
    let call ← read
    let child ← spawn call.environment arguments (fun _ => pure ()) fun id cause => do
      let name := Naming.always (arguments.head?.getD "")
      complainAs id (call.name ++ ": " ++ failedToRun name ++ ": " ++ reasonOf cause)
      return refusedStatus cause
    let ended := fun (exit : Exit) (late : Bool) => do
      match exit with
      | .status code => return if late && !line.has "keep" then 124 else code
      | .signal number =>
        if late && number ≠ 9 && !line.has "keep" then return 124
        if !late then act (Act.alter fun world => world.signal call.id number)
        return 128 + number
    let strike := fun (signal : Nat) => do
      if line.has "v" then
        let name := Naming.always (arguments.head?.getD "")
        warn ("sending signal " ++ Signal.name signal ++ " to command " ++ name)
      act (Act.alter fun world =>
        let world := (family world child).foldl (fun world id => world.signal id signal) world
        if signal = 9 then world.signal call.id 9 else world)
    let awaitLate : Tool Nat := do ended (← act (Act.wait child)) true
    if limit = 0 then ended (← act (Act.wait child)) false
    else
      let start ← look (·.clock)
      match ← act (Act.waitUntil call.id child (start + limit)) with
      | some exit => ended exit false
      | none =>
        strike signal
        match later with
        | none => awaitLate
        | some more =>
          match ← act (Act.waitUntil call.id child (start + limit + more)) with
          | some exit => ended exit true
          | none =>
            strike 9
            awaitLate

/-! The environment -/

/-- The environment with a name given a value. -/
def withValue (environment : List (String × String)) (name value : String) :
    List (String × String) :=
  if environment.any (·.1 = name) then
    environment.map fun (other, old) => (other, if other = name then value else old)
  else environment ++ [(name, value)]

/-- A text cut into words at blanks; quotes and backslashes keep signs together. -/
def wordsOf : (fuel : Nat) → (current : Option (List Char)) → (quote : Option Char) → List Char →
    List String
  | 0, _, _, _ => []
  | _, current, _, [] => current.toList.map fun signs => String.ofList signs.reverse
  | fuel + 1, current, some quote, c :: rest =>
    if c = quote then wordsOf fuel current none rest
    else wordsOf fuel (some (c :: current.getD [])) (some quote) rest
  | fuel + 1, current, none, '\\' :: c :: rest =>
    wordsOf fuel (some (c :: current.getD [])) none rest
  | fuel + 1, current, none, c :: rest =>
    if c = '\'' || c = '"' then wordsOf fuel (some (current.getD [])) (some c) rest
    else if c = ' ' || c = '\t' || c = '\n' then
      (current.toList.map fun signs => String.ofList signs.reverse) ++ wordsOf fuel none none rest
    else wordsOf fuel (some (c :: current.getD [])) none rest

/-- Runs a program in a changed environment, or writes the environment. -/
def env : Tool Nat := do
  let call ← read
  let arguments :=
    match call.arguments with
    | "-S" :: text :: rest => wordsOf (text.length + 1) none none text.toList ++ rest
    | arguments => arguments
  let line ← calling (fun call => { call with arguments }) <| line {
    letters := "iu:0C:v", inOrder := true
    names := [
      ("ignore-environment", .nothing, "i"), ("unset", .value, "u"), ("null", .nothing, "0"),
      ("chdir", .value, "C"), ("debug", .nothing, "v")] } 125
  let isEmpty := line.has "i" || line.operands.head? = some "-"
  let operands := if line.operands.head? = some "-" then line.operands.drop 1 else line.operands
  let removed := line.options.filterMap fun (name, value) => if name = "u" then value else none
  for name in removed do
    if name.isEmpty || name.contains '=' then
      fail 125 ("cannot unset " ++ Naming.always name ++ ": Invalid argument")
  let start := if isEmpty then [] else call.environment.filter fun (name, _) => !removed.contains name
  let given := operands.takeWhile (·.contains '=')
  let environment := given.foldl (fun environment argument =>
    let name := argument.toList.takeWhile (· ≠ '=')
    withValue environment (String.ofList name)
      (String.ofList (argument.toList.drop (name.length + 1)))) start
  let command := operands.drop given.length
  if command.isEmpty then
    environment.forM fun (name, value) => sayEnded (line.has "0") (name ++ "=" ++ value)
    return 0
  if line.has "0" then misuse 125 "cannot specify --null (-0) with command"
  match line.last? "C" with
  | none => become environment command id
  | some path =>
    match ← lookAt true path with
    | .ok (some place, .directory) =>
      let call := { call with here := place }
      calling (fun _ => call) (become environment command id)
    | .ok _ =>
      fail 125 ("cannot change directory to " ++ Naming.always path ++ ": Not a directory")
    | .error cause =>
      fail 125 ("cannot change directory to " ++ Naming.always path ++ ": " ++ reasonOf cause)

/-- Writes values of the environment. -/
def printenv : Tool Nat := do
  let line ← line { letters := "0", inOrder := true, names := [("null", .nothing, "0")] } 2
  let environment := (← read).environment
  if line.operands.isEmpty then
    environment.forM fun (name, value) => sayEnded (line.has "0") (name ++ "=" ++ value)
    return 0
  forAll line.operands fun name => do
    match environment.lookup name with
    | some value =>
      sayEnded (line.has "0") value
      return 0
    | none => return 1

/-! Other conditions -/

/-- Runs a program that a hangup does not end. -/
def nohup : Tool Nat := do
  let line ← line { inOrder := true } 125
  if line.operands.isEmpty then misuse 125 "missing operand"
  let call ← read
  act (Act.alter fun world => world.changeMember call.id fun member =>
    { member with ignored := 1 :: member.ignored })
  become call.environment line.operands failedToRun

/-- Runs a program at another priority, or writes the priority. -/
def nice : Tool Nat := do
  let call ← read
  let arguments :=
    match call.arguments with
    | first :: rest =>
      match first.toList with
      | '-' :: digits =>
        if !digits.isEmpty && digits.all Char.isDigit then "-n" :: String.ofList digits :: rest
        else call.arguments
      | _ => call.arguments
    | [] => []
  let line ← calling (fun call => { call with arguments }) <| line {
    letters := "n:", inOrder := true, names := [("adjustment", .value, "n")] } 125
  let known := (call.environment.lookup niceName).bind fun text => Number.natural? text.toList
  let added ←
    match line.last? "n" with
    | none => pure 10
    | some text =>
      match Decimal.read? text.toList with
      | some ⟨digits, 0⟩ => pure digits
      | _ => fail 125 ("invalid adjustment " ++ Naming.marked text)
  match line.operands with
  | [] =>
    if line.has "n" then misuse 125 "a command must be given with an adjustment"
    sayLine (toString (known.getD 0))
    return 0
  | arguments =>
    let level := max 0 (min 19 ((known.getD 0 : Nat) + added))
    become (withValue call.environment niceName (toString level)) arguments id
where
  /-- The name under which the priority is passed on. -/
  niceName : String := String.singleton (Char.ofNat 1)

/-- Runs a program in a session of its own. -/
def setsid : Tool Nat := do
  let line ← line {
    letters := "cfw", inOrder := true
    names := [("ctty", .nothing, "c"), ("fork", .nothing, "f"), ("wait", .nothing, "w")] } 1
  let call ← read
  if line.operands.isEmpty then
    sayError "setsid: no command specified\n"
    referToHelp 1
  flush
  let cause ← act (call.start call.id call.environment line.operands)
  fail (refusedStatus cause)
    ("failed to execute " ++ line.operands.head?.getD "" ++ ": " ++ reasonOf cause)

/-- Runs a program with other buffers. -/
def stdbuf : Tool Nat := do
  let line ← line {
    letters := "i:o:e:", inOrder := true
    names := [("input", .value, "i"), ("output", .value, "o"), ("error", .value, "e")] } 125
  if line.operands.isEmpty then misuse 125 "missing operand"
  if line.options.isEmpty then misuse 125 "you must specify a buffering mode option"
  become (← read).environment line.operands failedToRun

/-! Words as arguments -/

/-- What `xargs` has read of its input. -/
structure Words where
  /-- Words in reverse, each with whether it ends a line. -/
  done : List (List Char × Bool) := []
  /-- The signs of the word that has begun, in reverse. -/
  current : Option (List Char) := none
  problem : Option String := none
  deriving Inhabited

/-- Completes the word that has begun. -/
def Words.finish (words : Words) (endsLine : Bool) : Words :=
  match words.current with
  | some signs => { words with done := (signs.reverse, endsLine) :: words.done, current := none }
  | none =>
    match words.done with
    | (last, _) :: others => if endsLine then { words with done := (last, true) :: others } else words
    | [] => words

/-- The complaint about a quote without an end. -/
def unmatched (quote : Char) : String :=
  (if quote = '\'' then "unmatched single quote" else "unmatched double quote") ++
    "; by default quotes are special to xargs unless you use the -0 option"

/-- The words of a text with quotes; where whole lines count, blanks do not end words. -/
def quotedWords (byLines : Bool) : (fuel : Nat) → Words → List Char → Words
  | 0, words, _ => words
  | _, words, [] => words.finish false
  | fuel + 1, words, c :: rest =>
    let add := fun (signs : List Char) => { words with current := some (signs ++ words.current.getD []) }
    if c = '\n' then quotedWords byLines fuel (words.finish true) rest
    else if c = ' ' || c = '\t' then
      if byLines && words.current.isSome then quotedWords byLines fuel (add [c]) rest
      else if byLines then quotedWords byLines fuel words rest
      else
        -- A blank at the end of a line joins it with the next one.
        quotedWords byLines fuel (words.finish false) (rest.dropWhile fun d => d = ' ' || d = '\t')
    else if c = '\'' || c = '"' then
      let inside := rest.takeWhile fun d => d ≠ c && d ≠ '\n'
      match rest.drop inside.length with
      | d :: after =>
        if d = c then quotedWords byLines fuel (add inside.reverse) after
        else { words with problem := some (unmatched c) }
      | [] => { words with problem := some (unmatched c) }
    else if c = '\\' then
      match rest with
      | d :: after => quotedWords byLines fuel (add [d]) after
      | [] => quotedWords byLines fuel (add []) []
    else quotedWords byLines fuel (add [c]) rest

/-- The words of a text between signs. -/
def cutWords (separator : Char) (text : List Char) : List (List Char × Bool) :=
  let parts := text.splitOn separator
  let parts := if parts.getLast? = some [] then parts.dropLast else parts
  parts.map (·, true)

/-- The first words that make up a call, and those left. -/
def portionOf (most lines limit : Option Nat) (size : Nat) : (taken linesTaken used : Nat) →
    List (List Char × Bool) → List (List Char) × List (List Char × Bool)
  | _, _, _, [] => ([], [])
  | taken, linesTaken, used, (word, endsLine) :: rest =>
    let full := most.any (· ≤ taken) || lines.any (· ≤ linesTaken) ||
      (0 < taken && limit.any (· < size + used + word.length + 1))
    if full then ([], (word, endsLine) :: rest)
    else
      let (more, after) := portionOf most lines limit size (taken + 1)
        (if endsLine then linesTaken + 1 else linesTaken) (used + word.length + 1) rest
      (word :: more, after)

/-- Calls for all words; `fuel` is more than their number. -/
def callsOf (most lines limit : Option Nat) (size : Nat) : (fuel : Nat) →
    List (List Char × Bool) → List (List (List Char))
  | 0, _ => []
  | _, [] => []
  | fuel + 1, words =>
    let (now, later) := portionOf most lines limit size 0 0 0 words
    now :: callsOf most lines limit size fuel later

/-- Runs a program for words that are read. -/
def xargs : Tool Nat := do
  let call ← read
  let line ← line {
    letters := "0a:d:E:e::I:i::L:l::n:P:prs:tx", inOrder := true
    names := [
      ("null", .nothing, "0"), ("arg-file", .value, "a"), ("delimiter", .value, "d"),
      ("eof", .optional, "e"), ("replace", .optional, "i"), ("max-lines", .optional, "l"),
      ("max-args", .value, "n"), ("max-procs", .value, "P"), ("interactive", .nothing, "p"),
      ("no-run-if-empty", .nothing, "r"), ("max-chars", .value, "s"), ("verbose", .nothing, "t"),
      ("exit", .nothing, "x")] } 1
  let number := fun (name : String) => do
    match line.last? name with
    | none => return none
    | some text =>
      match Number.natural? text.toList with
      | none => misuse 1 ("invalid number \"" ++ text ++ "\" for -" ++ name ++ " option")
      | some 0 =>
        if name = "P" then return some 0
        misuse 1 ("value 0 for -" ++ name ++ " option should be >= 1")
      | some n => return some n
  let most ← number "n"
  let lines ← number "L"
  let lines := if line.has "l" then some (((line.last? "l").bind (·.toNat?)).getD 1) else lines
  let limit ← number "s"
  discard (number "P")
  let replaced := if line.has "i" then some ((line.last? "i").getD "\x7b\x7d") else line.last? "I"
  let separator : Option Char ←
    if line.has "0" then pure (some (Char.ofNat 0))
    else
      match (line.last? "d").map String.toList with
      | none => pure none
      | some [c] => pure (some c)
      | some ('\\' :: rest) =>
        let (signs, _) := escapeAfter false rest
        pure signs.head?
      | some _ =>
        fail 1 ("Invalid input delimiter specification " ++ (line.last? "d").getD "" ++
          ": the delimiter must be either a single character or an escape sequence starting with \\.")
  let path := (line.last? "a").getD "-"
  let text ←
    match ← contents path with
    | .ok data => pure (Octets.ofBytes data)
    | .error cause =>
      fail 1 ("Cannot open input file " ++ Naming.always path ++ ": " ++ reasonOf cause)
  let (words, problem) : List (List Char × Bool) × Option String :=
    match separator with
    | some c => (cutWords c text, none)
    | none =>
      let words := quotedWords replaced.isSome (text.length + 1) {} text
      (words.done.reverse, words.problem)
  let ending := if separator.isSome then none else (line.last? "E").or (line.last? "e")
  let words := words.takeWhile fun (word, _) => some (String.ofList word) ≠ ending
  let command := if line.operands.isEmpty then ["echo"] else line.operands
  let run := fun (arguments : List String) => do
    if line.has "t" then
      flush
      sayError (" ".intercalate arguments ++ "\n")
    let id ← spawn call.environment arguments
      (fun id => do discard (Act.openAs id call.here 0 "/dev/null" { reads := true })) fun id cause => do
        let name := arguments.head?.getD ""
        complainAs id (call.name ++ ": " ++ name ++ ": " ++ reasonOf cause)
        return if cause = .notFound then 127 else 126
    let shown := arguments.head?.getD ""
    match ← act (Act.wait id) with
    | .status 0 => return 0
    | .status 255 => fail 124 (shown ++ ": exited with status 255; aborting")
    | .status 127 => stop 127
    | .status 126 => stop 126
    | .status _ => return 123
    | .signal number => fail 125 (shown ++ ": terminated by signal " ++ toString number)
  if let some problem := problem then fail 1 problem
  match replaced with
  | some mark =>
    forAll words fun (word, _) => do
      let word := String.ofList word
      run (command.map fun argument => if mark.isEmpty then argument else argument.replace mark word)
  | none =>
    let size := command.foldl (fun n word => n + word.length + 1) 0
    let limit := limit.getD 131072
    if words.any fun (word, _) => limit < size + word.length + 1 then
      fail 1 "argument line too long"
    if words.isEmpty then if line.has "r" then return 0 else return ← run command
    let calls := callsOf most lines (some limit) size (words.length + 1) words
    forAll calls fun words => run (command ++ words.map String.ofList)

end StyleTokens.Shell.Tool

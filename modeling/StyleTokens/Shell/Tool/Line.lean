/-
Arguments of programs as options and operands.

* `OptionTable` — the options that a program knows;
* `OptionTable.cut` — arguments as options and operands;
* `Tool.options` — goes through the options of a program.

Design notes: options may stand behind operands unless the table says otherwise, and
two dashes end them.  Long names may be cut as long as they are clear.
-/
import StyleTokens.Shell.Tool.Basic

namespace StyleTokens.Shell

/-- Whether an option takes a value. -/
inductive Taking
  | nothing
  | value
  /-- A value that follows at once or is missing. -/
  | optional
  deriving DecidableEq, Repr, Inhabited

/-- The options that a program knows. -/
structure OptionTable where
  /-- Letters, each followed by a colon if it takes a value and by two if it may. -/
  letters : String := ""
  /-- Long names, whether they take a value, and the letter or name they stand for. -/
  names : List (String × Taking × String) := []
  /-- Whether the first operand ends the options. -/
  inOrder : Bool := false
  deriving Inhabited

/-- Arguments as options and operands, up to a problem if there is one. -/
structure Line where
  options : List (String × Option String) := []
  operands : List String := []
  problem : Option String := none
  deriving Inhabited

namespace Line

/-- The line with one more option at its start. -/
def withOption (line : Line) (name : String) (value : Option String) : Line :=
  { line with options := (name, value) :: line.options }

/-- The line with one more operand at its start. -/
def withOperand (line : Line) (operand : String) : Line :=
  { line with operands := operand :: line.operands }

/-- Whether an option is there. -/
def has (line : Line) (name : String) : Bool :=
  line.options.any (·.1 = name)

/-- The value of the last option of a name. -/
def last? (line : Line) (name : String) : Option String :=
  (line.options.reverse.find? (·.1 = name)).bind (·.2)

end Line

namespace OptionTable

/-- What a letter takes, if it is known. -/
def taking? (letter : Char) : List Char → Option Taking
  | c :: ':' :: ':' :: rest => if c = letter then some .optional else taking? letter rest
  | c :: ':' :: rest => if c = letter then some .value else taking? letter rest
  | c :: rest => if c = letter then some .nothing else taking? letter rest
  | [] => none

/-- The long name that is meant, or why it is unclear; `whole` is how it is written. -/
def named (table : OptionTable) (name whole : String) : Except String (String × Taking × String) :=
  match table.names.find? (·.1 = name) with
  | some found => return found
  | none =>
    let found := table.names.filter fun (other, _) => other.startsWith name
    match found with
    | [] => throw ("unrecognized option '" ++ whole ++ "'")
    | first :: others =>
      if others.all (·.2 = first.2) then return first
      else
        let shown := found.map fun (other, _) => " '--" ++ other ++ "'"
        throw ("option '" ++ whole ++ "' is ambiguous; possibilities:" ++ String.join shown)

/-- The letters of an argument behind a dash, and the arguments behind it that are left. -/
def cutLetters (table : OptionTable) (rest : List String) :
    List Char → Except String (List (String × Option String) × List String)
  | [] => return ([], rest)
  | letter :: letters =>
    let name := String.singleton letter
    let shown := Naming.isShown letter
    match if letter = ':' then none else taking? letter table.letters.toList with
    | none =>
      throw ("invalid option -- '" ++ (if shown then name else String.ofList [letter]) ++ "'")
    | some .nothing => do
      let (options, rest) ← cutLetters table rest letters
      return ((name, none) :: options, rest)
    | some .optional =>
      return ([(name, if letters.isEmpty then none else some (String.ofList letters))], rest)
    | some .value =>
      if !letters.isEmpty then return ([(name, some (String.ofList letters))], rest)
      else
        match rest with
        | value :: rest => return ([(name, some value)], rest)
        | [] => throw ("option requires an argument -- '" ++ name ++ "'")

/-- The letters before one that is refused. -/
def sound (table : OptionTable) : List Char → List (String × Option String)
  | [] => []
  | letter :: letters =>
    match if letter = ':' then none else taking? letter table.letters.toList with
    | some .nothing => (String.singleton letter, none) :: sound table letters
    | _ => []

/-- Arguments as options and operands; `fuel` is at least their number. -/
def cut (table : OptionTable) : (fuel : Nat) → List String → Line
  | 0, arguments => { operands := arguments }
  | _, [] => {}
  | fuel + 1, argument :: rest =>
    match argument.toList with
    | ['-', '-'] => { operands := rest }
    | '-' :: '-' :: name =>
      let key := String.ofList (name.takeWhile (· ≠ '='))
      let value :=
        if name.contains '=' then some (String.ofList (name.drop (key.length + 1))) else none
      match table.named key argument with
      | .error problem => { problem := some problem }
      | .ok (found, taking, name) =>
        match taking, value, rest with
        | .nothing, some _, _ =>
          { problem := some ("option '--" ++ found ++ "' doesn't allow an argument") }
        | .value, none, [] => { problem := some ("option '--" ++ found ++ "' requires an argument") }
        | .value, none, value :: rest => (cut table fuel rest).withOption name (some value)
        | _, value, _ => (cut table fuel rest).withOption name value
    | '-' :: letter :: letters =>
      match table.cutLetters rest (letter :: letters) with
      | .error problem => { options := table.sound (letter :: letters), problem := some problem }
      | .ok (options, rest) =>
        let line := cut table fuel rest
        { line with options := options ++ line.options }
    | _ =>
      if table.inOrder then { operands := argument :: rest }
      else (cut table fuel rest).withOperand argument

/-- Arguments as options and operands. -/
def line (table : OptionTable) (arguments : List String) : Line :=
  table.cut (arguments.length + 1) arguments

end OptionTable

namespace Tool

/-- Goes through the options of the call, and refuses one that makes no sense with a
status; gives what was made of them, and the operands. -/
def options {σ : Type} (table : OptionTable) (status : Nat) (start : σ)
    (step : σ → String → String → Tool σ) : Tool (σ × List String) := do
  let line := table.line (← read).arguments
  let made ← line.options.foldlM (fun made (name, value) => step made name (value.getD "")) start
  if let some problem := line.problem then misuse status problem
  return (made, line.operands)

/-- The options of the call, none of which needs a look before the others, and the
operands. -/
def line (table : OptionTable) (status : Nat) : Tool Line := do
  let line := table.line (← read).arguments
  if let some problem := line.problem then misuse status problem
  return line

end Tool

end StyleTokens.Shell

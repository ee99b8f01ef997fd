/-
What the commands of the shell itself have in common, and those that write texts or look at
conditions.

* `Run.letters` — options of one letter each;
* `Run.numberOf` — a number among the arguments;
* `Run.inQuotes` — a text that the shell would read back;
* `Run.echo`, `Run.printf` — texts;
* `Run.test` — conditions.
-/
import StyleTokens.Shell.Condition
import StyleTokens.Shell.Format
import StyleTokens.Shell.Process

namespace StyleTokens.Shell.Run

/-- Options that were found, with their values, and the arguments behind them. -/
abbrev Letters := List (Char × String) × List String

/-- Whether a letter is known, and whether it takes a value. -/
def takesValue? (letter : Char) : List Char → Option Bool
  | c :: ':' :: rest => if c = letter then some true else takesValue? letter rest
  | c :: rest => if c = letter then some false else takesValue? letter rest
  | [] => none

/-- The options of an argument, behind its dash, and the arguments behind it that are
left. -/
def lettersIn (known : String) (rest : List String) : List Char → Run Letters
  | [] => return ([], rest)
  | letter :: letters => do
    match takesValue? letter known.toList with
    | none => fail ("Illegal option -" ++ String.singleton letter)
    | some false =>
      let (found, rest) ← lettersIn known rest letters
      return ((letter, "") :: found, rest)
    | some true =>
      if !letters.isEmpty then return ([(letter, String.ofList letters)], rest)
      match rest with
      | value :: rest => return ([(letter, value)], rest)
      | [] => fail ("No arg for -" ++ String.singleton letter ++ " option")

/-- The options at the start of the arguments; letters that take a value have a colon
behind them.  `fuel` is at least the number of arguments. -/
def lettersFrom (known : String) : (fuel : Nat) → List String → Run Letters
  | 0, arguments => return ([], arguments)
  | _, [] => return ([], [])
  | fuel + 1, argument :: rest => do
    match argument.toList with
    | ['-', '-'] => return ([], rest)
    | '-' :: letter :: letters =>
      let (found, rest) ← lettersIn known rest (letter :: letters)
      let (more, rest) ← lettersFrom known fuel rest
      return (found ++ more, rest)
    | _ => return ([], argument :: rest)

/-- The options at the start of the arguments. -/
def letters (known : String) (arguments : List String) : Run Letters :=
  lettersFrom known (arguments.length + 1) arguments

/-- Digits as a number of 32 bits with a sign, which greater ones are cut to. -/
def cutNumber (text : String) : Int :=
  let size := text.toList.foldl (fun n c => n * 10 + (c.toNat - 48)) 0
  Int.bmod (min size 0x7FFFFFFFFFFFFFFF : Nat) 0x100000000

/-- The number that an argument is. -/
def numberOf (text : String) : Run Int := do
  if text.isEmpty || !text.all Char.isDigit then fail ("Illegal number: " ++ text)
  return cutNumber text

/-- The status that a number is. -/
def statusOf (number : Int) : Nat :=
  (number % 256).toNat

/-- A text in single quotes, but for those in it, which are in double ones.  `fuel` is
more than the number of its signs. -/
def quotedParts : (fuel : Nat) → List Char → List Char
  | 0, _ => []
  | fuel + 1, text =>
    let plain := text.takeWhile (· ≠ '\'')
    let rest := text.drop plain.length
    let quotes := rest.takeWhile (· = '\'')
    let after := rest.drop quotes.length
    let start := '\'' :: plain ++ ['\'']
    if quotes.isEmpty then start
    else
      let middle := '"' :: quotes ++ ['"']
      start ++ middle ++ if after.isEmpty then [] else quotedParts fuel after

/-- A text that the shell would read back. -/
def inQuotes (text : String) : String :=
  String.ofList (quotedParts (text.length + 1) text.toList)

/-- The command `echo`. -/
def echo (arguments : List String) : Run Nat := do
  put (echoed arguments)
  return 0

/-- The command `printf`. -/
def printf (arguments : List String) : Run Nat := do
  let (_, arguments) ← letters "" arguments
  match arguments with
  | [] => fail "usage: printf format [arg ...]"
  | format :: arguments =>
    let (signs, progress) := Format.written format arguments
    progress.complaints.forM warn
    put signs
    if let some reason := progress.refusal then fail reason
    return if progress.complaints.isEmpty then 0 else 1

/-- The command `test`, or `[` with its closing bracket. -/
def test (name : String) (arguments : List String) : Run Nat := do
  let words ←
    if name ≠ "[" then pure arguments
    else if arguments.getLast? = some "]" then pure arguments.dropLast
    else fail "missing ]"
  let process ← get
  let world ← look id
  match Condition.holds { world, id := process.id, here := process.here } words with
  | .ok holds => return if holds then 0 else 1
  | .error reason => fail reason

end StyleTokens.Shell.Run

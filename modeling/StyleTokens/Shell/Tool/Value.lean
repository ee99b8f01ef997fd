/-
Programs that write their arguments, or what these are worth.

* `Tool.succeed`, `Tool.refuse` — nothing but a status;
* `Tool.echo`, `Tool.printf` — texts;
* `Tool.test` — conditions;
* `Tool.expr` — expressions.
-/
import StyleTokens.Shell.Condition
import StyleTokens.Shell.Expression.Reader
import StyleTokens.Shell.Format
import StyleTokens.Shell.Tool.Line
import StyleTokens.Shell.Tool.Number

namespace StyleTokens.Shell.Tool

/-- Succeeds. -/
def succeed : Tool Nat :=
  return 0

/-- Does not succeed. -/
def refuse : Tool Nat :=
  return 1

/-- The text after a backslash as `echo` reads it: the signs, and the rest. -/
def echoEscape : List Char → List Char × List Char
  | 'e' :: rest => ([Char.ofNat 27], rest)
  | rest => escapeAfter true rest

/-- A text with its escapes carried out, up to one that ends all. -/
def echoEscaped : (fuel : Nat) → List Char → List Char × Bool
  | 0, _ => ([], true)
  | _, [] => ([], true)
  | _, '\\' :: 'c' :: _ => ([], false)
  | fuel + 1, '\\' :: rest =>
    let (signs, rest) := echoEscape rest
    let (more, goesOn) := echoEscaped fuel rest
    (signs ++ more, goesOn)
  | fuel + 1, c :: rest =>
    let (more, goesOn) := echoEscaped fuel rest
    (c :: more, goesOn)

/-- Writes its arguments. -/
def echo : Tool Nat := do
  let arguments := (← read).arguments
  let isOption := fun (argument : String) =>
    match argument.toList with
    | '-' :: letters => !letters.isEmpty && letters.all "neE".toList.contains
    | _ => false
  let given := arguments.takeWhile isOption
  let letters := given.flatMap (·.toList.drop 1)
  let text := (" ".intercalate (arguments.drop given.length)).toList
  let escapes := letters.reverse.find? (· ≠ 'n') = some 'e'
  let (signs, goesOn) := if escapes then echoEscaped text.length text else (text, true)
  put signs
  if goesOn && !letters.contains 'n' then say "\n"
  return 0

/-- Writes a format with its arguments. -/
def printf : Tool Nat := do
  match (← read).arguments with
  | [] => misuse 1 "missing operand"
  | format :: arguments =>
    let (signs, progress) := Format.written format arguments
    put signs
    for complaint in progress.complaints do
      let argument := String.ofList (complaint.toList.takeWhile (· ≠ ':'))
      let reason :=
        if complaint.endsWith "expected numeric value" then "expected a numeric value"
        else if complaint.endsWith "not completely converted" then "value not completely converted"
        else "Numerical result out of range"
      warn (Naming.marked argument ++ ": " ++ reason)
    if let some reason := progress.refusal then
      fail 1 (reason.replace "invalid directive" "invalid conversion specification")
    match progress.arguments with
    | extra :: _ =>
      warn ("warning: ignoring excess arguments, starting with " ++ Naming.marked extra)
    | [] => pure ()
    return if progress.complaints.isEmpty then 0 else 1

/-- Tells whether a condition holds. -/
def test : Tool Nat := do
  let call ← read
  let words ←
    if !call.name.endsWith "[" then pure call.arguments
    else if call.arguments.getLast? = some "]" then pure call.arguments.dropLast
    else fail 2 "missing ']'"
  let world ← look id
  match Condition.holds { world, id := call.id, here := call.here } words with
  | .ok holds => return if holds then 0 else 1
  | .error reason =>
    let number := "Illegal number: "
    let operator := ": unexpected operator"
    let quoted := fun (text : String) => Naming.marked text
    if reason.startsWith number then
      fail 2 ("invalid integer " ++ quoted (String.ofList (reason.toList.drop number.length)))
    else if reason.endsWith operator then
      let name := String.ofList (reason.toList.take (reason.length - operator.length))
      fail 2 (quoted ((words[1]?).getD name) ++ ": binary operator expected")
    else fail 2 reason

/-! Expressions -/

namespace Worth

/-- What an expression is worth. -/
inductive Item
  | number (value : Int)
  | text (value : List Char)
  deriving DecidableEq, Repr, Inhabited

/-- Why an expression is worth nothing. -/
inductive Flaw
  | wrong (text : String)
  | noNumber
  | division
  | expression (reason : String)
  deriving Repr, Inhabited

/-- The item as it is written. -/
def Item.shown : Item → List Char
  | number value => (toString value).toList
  | text value => value

/-- The number that an item is. -/
def Item.number? : Item → Option Int
  | number value => some value
  | text value =>
    match value with
    | '-' :: digits => (Number.natural? digits).map fun n => -(n : Int)
    | digits => (Number.natural? digits).map fun n => (n : Int)

/-- Whether an item counts as nothing. -/
def Item.isNothing (item : Item) : Bool :=
  item.shown.isEmpty || item.number? = some 0

/-- A step of evaluation; the state holds the arguments behind the last one and before
those that are left. -/
abbrev Eval := StateT (Option String × List String) (Except Flaw)

/-- The argument that comes next. -/
def next : Eval (Option String) :=
  return (← get).2.head?

/-- Takes the argument that comes next. -/
def take : Eval Unit :=
  modify fun (last, rest) => (rest.head?.or last, rest.drop 1)

/-- Takes an argument if it is one of several; gives it. -/
def accept (words : List String) : Eval (Option String) := do
  match ← next with
  | some word =>
    if words.contains word then
      take
      return some word
    else return none
  | none => return none

/-- Takes an argument that has to be there. -/
def demand : Eval String := do
  match ← next with
  | some word =>
    take
    return word
  | none =>
    let last := (← get).1.getD ""
    throw (.wrong ("syntax error: missing argument after " ++ Naming.marked last))

/-- The number that an item has to be. -/
def numberOf (item : Item) : Eval Int :=
  match item.number? with
  | some n => return n
  | none => throw .noNumber

/-- What of a text an expression matches at its start. -/
def matched (text pattern : List Char) : Eval Item := do
  match Expression.read .basic pattern with
  | .error reason => throw (.expression reason)
  | .ok written =>
    let found := written.expression.matchAt? { signs := text.toArray } 0
    if 0 < written.groups then
      match found.bind fun spot => spot.groups.lookup 1 with
      | some (start, stop) => return .text ((text.drop start).take (stop - start))
      | none => return .text []
    else return .number ((found.map fun spot => (spot.place : Int)).getD 0)

/-- The place of the first sign of a text that is one of several, from one on. -/
def indexOf (text signs : List Char) : Nat :=
  match text.findIdx? signs.contains with
  | some n => n + 1
  | none => 0

/-- What a comparison gives. -/
def compare (name : String) (left right : Item) : Bool :=
  let order : Ordering :=
    match left.number?, right.number? with
    | some a, some b => Ord.compare a b
    | _, _ =>
      let a := String.ofList left.shown
      let b := String.ofList right.shown
      if a < b then .lt else if a = b then .eq else .gt
  match name with
  | "<" => order = .lt
  | "<=" => order ≠ .gt
  | "=" | "==" => order = .eq
  | "!=" => order ≠ .eq
  | ">=" => order ≠ .lt
  | _ => order = .gt

mutual

/-- Alternatives. -/
def either : Nat → Eval Item
  | 0 => throw (.wrong "syntax error")
  | fuel + 1 => do eitherAfter fuel (← both fuel)

/-- Further alternatives. -/
def eitherAfter : Nat → Item → Eval Item
  | 0, left => return left
  | fuel + 1, left => do
    if (← accept ["|"]).isNone then return left
    let right ← both fuel
    let value := if !left.isNothing then left else if right.isNothing then .number 0 else right
    eitherAfter fuel value

/-- Items of which none may be nothing. -/
def both : Nat → Eval Item
  | 0 => throw (.wrong "syntax error")
  | fuel + 1 => do bothAfter fuel (← comparison fuel)

/-- Further items of which none may be nothing. -/
def bothAfter : Nat → Item → Eval Item
  | 0, left => return left
  | fuel + 1, left => do
    if (← accept ["&"]).isNone then return left
    let right ← comparison fuel
    bothAfter fuel (if left.isNothing || right.isNothing then .number 0 else left)

/-- Comparisons. -/
def comparison : Nat → Eval Item
  | 0 => throw (.wrong "syntax error")
  | fuel + 1 => do comparisonAfter fuel (← addition fuel)

/-- Further comparisons. -/
def comparisonAfter : Nat → Item → Eval Item
  | 0, left => return left
  | fuel + 1, left => do
    match ← accept ["<", "<=", "=", "==", "!=", ">=", ">"] with
    | none => return left
    | some name =>
      let right ← addition fuel
      comparisonAfter fuel (.number (if compare name left right then 1 else 0))

/-- Totals. -/
def addition : Nat → Eval Item
  | 0 => throw (.wrong "syntax error")
  | fuel + 1 => do additionAfter fuel (← product fuel)

/-- Further parts of totals. -/
def additionAfter : Nat → Item → Eval Item
  | 0, left => return left
  | fuel + 1, left => do
    match ← accept ["+", "-"] with
    | none => return left
    | some name =>
      let right ← product fuel
      let a ← numberOf left
      let b ← numberOf right
      additionAfter fuel (.number (if name = "+" then a + b else a - b))

/-- Products. -/
def product : Nat → Eval Item
  | 0 => throw (.wrong "syntax error")
  | fuel + 1 => do productAfter fuel (← matching fuel)

/-- Further parts of products. -/
def productAfter : Nat → Item → Eval Item
  | 0, left => return left
  | fuel + 1, left => do
    match ← accept ["*", "/", "%"] with
    | none => return left
    | some name =>
      let right ← matching fuel
      let a ← numberOf left
      let b ← numberOf right
      if name ≠ "*" && b = 0 then throw .division
      let value := if name = "*" then a * b else if name = "/" then Int.tdiv a b else Int.tmod a b
      productAfter fuel (.number value)

/-- Matches. -/
def matching : Nat → Eval Item
  | 0 => throw (.wrong "syntax error")
  | fuel + 1 => do matchingAfter fuel (← named fuel)

/-- Further matches. -/
def matchingAfter : Nat → Item → Eval Item
  | 0, left => return left
  | fuel + 1, left => do
    if (← accept [":"]).isNone then return left
    let right ← named fuel
    matchingAfter fuel (← matched left.shown right.shown)

/-- Operations with names. -/
def named : Nat → Eval Item
  | 0 => throw (.wrong "syntax error")
  | fuel + 1 => do
    match ← accept ["+", "length", "match", "index", "substr"] with
    | none => primary fuel
    | some "+" => return .text (← demand).toList
    | some "length" => return .number (← named fuel).shown.length
    | some "match" =>
      let text ← named fuel
      let pattern ← named fuel
      matched text.shown pattern.shown
    | some "index" =>
      let text ← named fuel
      let signs ← named fuel
      return .number (indexOf text.shown signs.shown)
    | some _ =>
      let text ← named fuel
      let start ← named fuel
      let count ← named fuel
      match start.number?, count.number? with
      | some start, some count =>
        if start ≤ 0 || count ≤ 0 then return .text []
        return .text ((text.shown.drop (start.toNat - 1)).take count.toNat)
      | _, _ => return .text []

/-- A single item. -/
def primary : Nat → Eval Item
  | 0 => throw (.wrong "syntax error")
  | fuel + 1 => do
    match ← demand with
    | "(" =>
      let value ← either fuel
      match ← next with
      | some ")" =>
        take
        return value
      | some word =>
        throw (.wrong ("syntax error: expecting ')' instead of " ++ Naming.marked word))
      | none =>
        let last := (← get).1.getD ""
        throw (.wrong ("syntax error: expecting ')' after " ++ Naming.marked last))
    | ")" => throw (.wrong "syntax error: unexpected ')'")
    | word => return .text word.toList

end

/-- What arguments are worth as a whole. -/
def whole (arguments : List String) : Except Flaw Item := do
  let (value, _, rest) ← (either (20 * arguments.length + 20)).run (none, arguments)
  match rest with
  | [] => return value
  | extra :: _ => throw (.wrong ("syntax error: unexpected argument " ++ Naming.marked extra))

end Worth

/-- Writes what an expression is worth. -/
def expr : Tool Nat := do
  let arguments :=
    match (← read).arguments with
    | "--" :: rest => rest
    | arguments => arguments
  if arguments.isEmpty then misuse 2 "missing operand"
  match Worth.whole arguments with
  | .ok value =>
    put (value.shown ++ ['\n'])
    return if value.isNothing then 1 else 0
  | .error (.wrong text) => fail 2 text
  | .error .noNumber => fail 2 "non-integer argument"
  | .error .division => fail 2 "division by zero"
  | .error (.expression reason) => fail 2 reason

end StyleTokens.Shell.Tool

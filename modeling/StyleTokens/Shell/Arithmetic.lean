/-
Arithmetic in shell words.

* `Arithmetic.readNumber` — the number at the start of a text;
* `Arithmetic.ofText` — a text as a number, and nothing else;
* `Arithmetic.value` — the value of an expression, and the variables that it changes.

Numbers have 64 bits and a sign, and wrap; a number that is written with more of them
counts as the greatest one.

Design notes: an expression is evaluated as it is read, so that of two problems the
first one shows.  What is read but does not count is not evaluated.
-/
import StyleTokens.Count
import StyleTokens.Shell.Statement

namespace StyleTokens.Shell.Arithmetic

/-- A number of 64 bits with a sign. -/
def wrap (n : Int) : Int :=
  Int.bmod n Count.bound

/-- The bits of a number. -/
def bits (n : Int) : Nat :=
  (n % Count.bound).toNat

/-- The greatest number. -/
def greatest : Int := 0x7FFFFFFFFFFFFFFF

/-- The least number. -/
def least : Int := -0x8000000000000000

/-- Signs that count as blanks in front of a number and behind it. -/
def isBlank (c : Char) : Bool :=
  c = ' ' || (9 ≤ c.toNat && c.toNat ≤ 13)

/-- The value of a digit, letters counting on after nine. -/
def digit (c : Char) : Nat :=
  if c.isDigit then c.toNat - 48 else c.toLower.toNat - 87

/-- Whether a sign is a digit in a base. -/
def isDigitOf (base : Nat) (c : Char) : Bool :=
  (c.isDigit || c.isAlpha) && digit c < base

/-- The digits at the start of a text, and the text after them. -/
def readDigits (base : Nat) (text : List Char) : Nat × List Char :=
  let digits := text.takeWhile (isDigitOf base)
  (digits.foldl (fun n c => n * base + digit c) 0, text.drop digits.length)

/-- The number without a sign at the start of a text, and the text after it.  Without
a base, a zero in front makes it octal, and `0x` hexadecimal. -/
def readPlain (base : Option Nat) (text : List Char) : Nat × List Char :=
  match base, text with
  | some base, _ => readDigits base text
  | none, '0' :: x :: c :: rest =>
    if (x = 'x' || x = 'X') && isDigitOf 16 c then readDigits 16 (c :: rest)
    else readDigits 8 text
  | none, '0' :: _ => readDigits 8 text
  | none, _ => readDigits 10 text

/-- A number read from a text. -/
structure Reading where
  value : Int
  /-- Whether the number was too great. -/
  excess : Bool
  rest : List Char
  deriving DecidableEq, Repr, Inhabited

/-- The number at the start of a text, if there is one. -/
def readNumber (base : Option Nat) (text : List Char) : Option Reading :=
  let (negative, body) :=
    match text.dropWhile isBlank with
    | '-' :: rest => (true, rest)
    | '+' :: rest => (false, rest)
    | rest => (false, rest)
  let (size, rest) := readPlain base body
  if rest.length = body.length then none
  else
    let n : Int := if negative then -(size : Int) else size
    if n < least then some ⟨least, true, rest⟩
    else if greatest < n then some ⟨greatest, true, rest⟩
    else some ⟨n, false, rest⟩

/-- A text as a number, with blanks around it at most.  Without a base, an empty text is
zero. -/
def ofText (base : Option Nat) (text : List Char) : Option Int :=
  match readNumber base text with
  | some reading =>
    if !reading.excess && reading.rest.all isBlank then some reading.value else none
  | none => if base.isNone && text.all isBlank then some 0 else none

/-! Expressions -/

/-- An operation on two numbers. -/
inductive Operation
  | add | sub | mul | div | rem
  | shiftLeft | shiftRight
  | less | lessEq | greater | greaterEq | equal | unequal
  | bitAnd | bitXor | bitOr
  deriving DecidableEq, Repr, Inhabited

/-- How weakly an operation binds. -/
def Operation.level : Operation → Nat
  | mul | div | rem => 0
  | add | sub => 1
  | shiftLeft | shiftRight => 2
  | less | lessEq | greater | greaterEq => 3
  | equal | unequal => 4
  | bitAnd => 5
  | bitXor => 6
  | bitOr => 7

/-- More than all levels. -/
def levels : Nat := 8

/-- A part of an expression. -/
inductive Lexeme
  | number (value : Int)
  | name (text : String)
  | operation (operation : Operation)
  /-- Gives a variable a value, made with its old one if there is an operation. -/
  | assign (operation : Option Operation)
  | both | either | negation | complement | opened | closed | question | colon
  | stop
  | unknown
  deriving DecidableEq, Repr, Inhabited

/-- The lexemes by their signs, the longer signs first. -/
def lexemes : List (String × Lexeme) := [
  ("<<=", .assign (some .shiftLeft)), (">>=", .assign (some .shiftRight)),
  ("+=", .assign (some .add)), ("-=", .assign (some .sub)), ("*=", .assign (some .mul)),
  ("/=", .assign (some .div)), ("%=", .assign (some .rem)), ("&=", .assign (some .bitAnd)),
  ("^=", .assign (some .bitXor)), ("|=", .assign (some .bitOr)),
  ("<<", .operation .shiftLeft), (">>", .operation .shiftRight), ("<=", .operation .lessEq),
  (">=", .operation .greaterEq), ("==", .operation .equal), ("!=", .operation .unequal),
  ("&&", .both), ("||", .either), ("<", .operation .less), (">", .operation .greater),
  ("&", .operation .bitAnd), ("^", .operation .bitXor), ("|", .operation .bitOr),
  ("+", .operation .add), ("-", .operation .sub), ("*", .operation .mul), ("/", .operation .div),
  ("%", .operation .rem), ("=", .assign none), ("!", .negation), ("~", .complement),
  ("(", .opened), (")", .closed), ("?", .question), (":", .colon)]

/-- The first lexeme of a text, and the text after it. -/
def lexeme (text : List Char) : Lexeme × List Char :=
  match text.dropWhile fun c => c = ' ' || c = '\t' || c = '\n' with
  | [] => (.stop, [])
  | c :: rest =>
    if c.isDigit then
      let (size, after) := readPlain none (c :: rest)
      (.number (min size greatest), after)
    else if isNameStart c then
      let name := (c :: rest).takeWhile isNameSign
      (.name (String.ofList name), (c :: rest).drop name.length)
    else
      match lexemes.find? fun (sign, _) => sign.toList.isPrefixOf (c :: rest) with
      | some (sign, found) => (found, (c :: rest).drop sign.length)
      | none => (.unknown, rest)

/-- Why an expression has no value. -/
inductive Flaw
  /-- Something is missing or is too much. -/
  | message (text : String)
  /-- A variable that holds no number. -/
  | noNumber (text : String)
  /-- The least number divided by minus one, which ends the process. -/
  | overflow
  deriving DecidableEq, Repr, Inhabited

/-- An expression that is being read. -/
structure State where
  rest : List Char
  /-- The lexeme that comes next. -/
  next : Lexeme
  /-- Variables that were given a value, the latest first. -/
  changes : List (String × Int) := []

/-- A step of evaluation. -/
abbrev Eval := StateT State (Except Flaw)

/-- The number of a truth value. -/
def truth (b : Bool) : Int :=
  if b then 1 else 0

/-- The result of an operation. -/
def Operation.apply (a b : Int) : Operation → Except Flaw Int
  | add => return wrap (a + b)
  | sub => return wrap (a - b)
  | mul => return wrap (a * b)
  | div =>
    if b = 0 then throw (.message "division by zero")
    else if a = least && b = -1 then throw .overflow
    else return Int.tdiv a b
  | rem =>
    if b = 0 then throw (.message "division by zero")
    else if a = least && b = -1 then throw .overflow
    else return Int.tmod a b
  | shiftLeft => return wrap (a * (1 <<< (bits b % 64) : Nat))
  | shiftRight => return a >>> (bits b % 64)
  | less => return truth (a < b)
  | lessEq => return truth (a ≤ b)
  | greater => return truth (b < a)
  | greaterEq => return truth (b ≤ a)
  | equal => return truth (a = b)
  | unequal => return truth (a ≠ b)
  | bitAnd => return wrap (bits a &&& bits b : Nat)
  | bitXor => return wrap (bits a ^^^ bits b : Nat)
  | bitOr => return wrap (bits a ||| bits b : Nat)

namespace Eval

/-- Gives up. -/
def refuse {α : Type} (text : String) : Eval α :=
  throw (.message text)

/-- Takes the lexeme that comes next. -/
def take : Eval Lexeme :=
  modifyGet fun state =>
    let (next, rest) := lexeme state.rest
    (state.next, { state with next, rest })

/-- The value of a variable. -/
def valueOf (known : String → String) (name : String) : Eval Int := do
  match (← get).changes.lookup name with
  | some value => return value
  | none =>
    match ofText none (known name).toList with
    | some value => return value
    | none => throw (.noNumber (known name))

mutual

/-- An operand. -/
def operand (known : String → String) : Nat → (counts : Bool) → Eval Int
  | 0, _ => refuse "expecting primary"
  | fuel + 1, counts => do
    match ← take with
    | .opened =>
      let value ← assignment known fuel counts
      if (← get).next ≠ .closed then refuse "expecting ')'"
      discard take
      return value
    | .number value => return value
    | .name text => if counts then valueOf known text else return 0
    | .operation .add => operand known fuel counts
    | .operation .sub => return wrap (-(← operand known fuel counts))
    | .negation => return truth ((← operand known fuel counts) = 0)
    | .complement => return wrap (-(← operand known fuel counts) - 1)
    | _ => refuse "expecting primary"

/-- Goes on behind an operation with operations that bind more strongly than a level. -/
def operations (known : String → String) :
    Nat → (left : Int) → Operation → (level : Nat) → (counts : Bool) → Eval Int
  | 0, _, _, _, _ => refuse "expecting primary"
  | fuel + 1, left, operation, level, counts => do
    let right ← operand known fuel counts
    let right ←
      match (← get).next with
      | .operation other =>
        if other.level < operation.level then
          discard take
          operations known fuel right other operation.level counts
        else pure right
      | _ => pure right
    let value ← if counts then liftM (operation.apply left right) else pure right
    match (← get).next with
    | .operation other =>
      if level ≤ other.level then return value
      discard take
      operations known fuel value other level counts
    | _ => return value

/-- Operands and operations. -/
def sum (known : String → String) : Nat → (counts : Bool) → Eval Int
  | 0, _ => refuse "expecting primary"
  | fuel + 1, counts => do
    let value ← operand known fuel counts
    match (← get).next with
    | .operation operation =>
      discard take
      operations known fuel value operation levels counts
    | _ => return value

/-- Values of which all have to be true. -/
def conjunction (known : String → String) : Nat → (counts : Bool) → Eval Int
  | 0, _ => refuse "expecting primary"
  | fuel + 1, counts => do
    let left ← sum known fuel counts
    if (← get).next ≠ .both then return left
    discard take
    let right ← conjunction known fuel (counts && left ≠ 0)
    return truth (left ≠ 0 && right ≠ 0)

/-- Values of which one has to be true. -/
def disjunction (known : String → String) : Nat → (counts : Bool) → Eval Int
  | 0, _ => refuse "expecting primary"
  | fuel + 1, counts => do
    let left ← conjunction known fuel counts
    if (← get).next ≠ .either then return left
    discard take
    let right ← disjunction known fuel (counts && left = 0)
    return truth (left ≠ 0 || right ≠ 0)

/-- A choice. -/
def choice (known : String → String) : Nat → (counts : Bool) → Eval Int
  | 0, _ => refuse "expecting primary"
  | fuel + 1, counts => do
    let condition ← disjunction known fuel counts
    if (← get).next ≠ .question then return condition
    discard take
    let yes ← assignment known fuel (counts && condition ≠ 0)
    if (← get).next ≠ .colon then refuse "expecting ':'"
    discard take
    let no ← choice known fuel (counts && condition = 0)
    return if condition ≠ 0 then yes else no

/-- An expression. -/
def assignment (known : String → String) : Nat → (counts : Bool) → Eval Int
  | 0, _ => refuse "expecting primary"
  | fuel + 1, counts => do
    let state ← get
    match state.next, lexeme state.rest with
    | .name target, (.assign operation, _) =>
      discard take
      discard take
      let value ← assignment known fuel counts
      if !counts then return value
      let value ←
        match operation with
        | some operation => liftM (operation.apply (← valueOf known target) value)
        | none => pure value
      modify fun state => { state with changes := (target, value) :: state.changes }
      return value
    | _, _ => choice known fuel counts

end

end Eval

/-- The value of an expression, and the variables that it changes, the last change
first. -/
def value (known : String → String) (text : List Char) :
    Except Flaw (Int × List (String × Int)) :=
  let (next, rest) := lexeme text
  let evaluation : Eval Int := do
    let value ← Eval.assignment known (8 * text.length + 16) true
    if (← get).next ≠ .stop then Eval.refuse "expecting EOF"
    return value
  -- Blanks alone are zero.
  if next = .stop then return (0, [])
  else (evaluation.run { rest, next }).map fun (value, state) => (value, state.changes)

end StyleTokens.Shell.Arithmetic

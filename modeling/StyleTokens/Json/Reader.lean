/-
Reading JSON documents.

* `Json.read` — the document that a text is, or why it is none.

The grammar is the strict one: no comments, no commas at the end, no leading
zeros, and no white space but space, tab and line breaks.  Of a number that is no
integer the first digits are kept, as many as 64 bits hold.

Design notes: the reader goes through nested values by a recursion on fuel.  Each
call takes at least one character, so the length of the text is enough.
-/
import StyleTokens.Count
import StyleTokens.Json.Basic

namespace StyleTokens.Json

/-- A step of reading; the state is the text left. -/
abbrev Read := StateT (List Char) (Except String)

/-- White space between the signs of a document. -/
def isSpace (c : Char) : Bool :=
  c == ' ' || c == '\t' || c == '\n' || c == '\r'

/-- Passes white space. -/
def skipSpace : Read Unit :=
  modify (·.dropWhile isSpace)

/-- The next sign after white space, which stays in place. -/
def nextSign : Read Char := do
  skipSpace
  match ← get with
  | [] => throw "unexpected end of text"
  | c :: _ => return c

/-- Passes a fixed text. -/
def expect (text : String) : Read Unit := do
  let rest ← get
  if text.toList.isPrefixOf rest then set (rest.drop text.length)
  else throw ("expected " ++ text)

/-- The value of a hexadecimal digit. -/
def hexValue? (c : Char) : Option Nat :=
  if c.isDigit then some (c.toNat - 48)
  else if 'a' ≤ c && c ≤ 'f' then some (c.toNat - 87)
  else if 'A' ≤ c && c ≤ 'F' then some (c.toNat - 55)
  else none

/-- The number that four hexadecimal digits denote. -/
def codeUnit? (a b c d : Char) : Option Nat := do
  return (((← hexValue? a) * 16 + (← hexValue? b)) * 16 + (← hexValue? c)) * 16 + (← hexValue? d)

/-- The character that an escape letter names. -/
def escapeLetter? : Char → Option Char
  | '"' => some '"'
  | '\\' => some '\\'
  | '/' => some '/'
  | 'b' => some '\x08'
  | 'f' => some '\x0c'
  | 'n' => some '\n'
  | 'r' => some '\r'
  | 't' => some '\t'
  | _ => none

/-- The codes of a string up to its closing quote, and the text after it. -/
def stringCodes : List Char → Except String (List Nat × List Char)
  | [] => throw "unclosed string"
  | '"' :: rest => return ([], rest)
  | '\\' :: 'u' :: a :: b :: c :: d :: rest =>
    match codeUnit? a b c d with
    | some unit => do
      let (codes, rest) ← stringCodes rest
      return (unit :: codes, rest)
    | none => throw "invalid escape"
  | '\\' :: letter :: rest =>
    match escapeLetter? letter with
    | some c => do
      let (codes, rest) ← stringCodes rest
      return (c.toNat :: codes, rest)
    | none => throw "invalid escape"
  | c :: rest =>
    if c.toNat < 0x20 then throw "control character in a string"
    else do
      let (codes, rest) ← stringCodes rest
      return (c.toNat :: codes, rest)

/-- The characters that codes denote: two halves of a surrogate pair are one
character, and a half alone is none. -/
def ofCodes? : List Nat → Option (List Char)
  | [] => some []
  | high :: low :: rest =>
    if 0xD800 ≤ high && high < 0xDC00 then
      if 0xDC00 ≤ low && low < 0xE000 then
        (ofCodes? rest).map (Char.ofNat (0x10000 + (high - 0xD800) * 0x400 + (low - 0xDC00)) :: ·)
      else none
    else if 0xDC00 ≤ high && high < 0xE000 then none
    else (ofCodes? (low :: rest)).map (Char.ofNat high :: ·)
  | [code] => if 0xD800 ≤ code && code < 0xE000 then none else some [Char.ofNat code]

/-- A string from its opening quote on; `none` if it denotes no text. -/
def string? : Read (Option String) := do
  expect "\""
  let (codes, rest) ← liftM (stringCodes (← get))
  set rest
  return (ofCodes? codes).map String.ofList

/-- A run of digits. -/
def digits : Read (List Char) := do
  let rest ← get
  set (rest.dropWhile Char.isDigit)
  return rest.takeWhile Char.isDigit

/-- A run of at least one digit. -/
def someDigits : Read (List Char) := do
  let found ← digits
  if found.isEmpty then throw "digit expected"
  return found

/-- Passes a sign if it is next. -/
def accept (sign : Char) : Read Bool := do
  match ← get with
  | c :: rest =>
    if c = sign then
      set rest
      return true
    return false
  | [] => return false

/-- The number that decimal digits denote. -/
def decimal (digits : List Char) : Nat :=
  digits.foldl (fun n c => n * 10 + (c.toNat - 48)) 0

/-- A number followed by as many digits as 64 bits hold, and how many digits are
left over. -/
def keep (n : Nat) : List Char → Nat × Nat
  | [] => (n, 0)
  | c :: rest =>
    let longer := n * 10 + (c.toNat - 48)
    if longer < Count.bound then keep longer rest else (n, rest.length + 1)

/-- The number that is written with these digits before and behind the point and
this exponent. -/
def ofDigits (negative : Bool) (whole fraction : List Char) (exponent : Int) : Json :=
  let (n, more) := keep 0 whole
  let (n, rest) := keep n fraction
  .real negative n (exponent + more - (fraction.length - rest : Nat))

/-- A number.  An integer that 64 bits do not hold is taken as a real number, and
so is a zero with a sign. -/
def number : Read Json := do
  let negative ← accept '-'
  let whole ← someDigits
  if whole.head? = some '0' && whole.length > 1 then throw "leading zero"
  let point ← accept '.'
  let fraction ← if point then someDigits else pure []
  let small ← accept 'e'
  let scaled ← if small then pure true else accept 'E'
  let exponent : Int ←
    if scaled then do
      let minus ← accept '-'
      if !minus then discard (accept '+')
      let n := decimal (← someDigits)
      pure (if minus then -n else n)
    else pure 0
  let n := decimal whole
  if point || scaled then return ofDigits negative whole fraction exponent
  if negative then
    if 0 < n && 2 * n ≤ Count.bound then return .integer (-n)
  else if n < Count.bound then return .integer n
  return ofDigits negative whole [] 0

mutual

/-- A value, after white space. -/
def value : Nat → Read Json
  | 0 => throw "nested too deeply"
  | fuel + 1 => do
    match ← nextSign with
    | 'n' => do
      expect "null"
      return .null
    | 't' => do
      expect "true"
      return .bool true
    | 'f' => do
      expect "false"
      return .bool false
    | '"' => return match ← string? with
      | some text => .string text
      | none => .unreadable
    | '[' => do
      expect "["
      if (← nextSign) = ']' then
        expect "]"
        return .array []
      return .array (← items fuel)
    | '\x7b' => do
      expect "\x7b"
      if (← nextSign) = '\x7d' then
        expect "\x7d"
        return .object []
      let found ← members fuel
      return match found.mapM fun (name, value) => name.map fun name => (name, value) with
      | some members => .object members
      | none => .unreadable
    | _ => number

/-- The items of an array, up to and with its closing bracket. -/
def items : Nat → Read (List Json)
  | 0 => throw "nested too deeply"
  | fuel + 1 => do
    let item ← value fuel
    match ← nextSign with
    | ',' => do
      expect ","
      return item :: (← items fuel)
    | _ => do
      expect "]"
      return [item]

/-- The members of an object, up to and with its closing brace; a name that
denotes no text is left out. -/
def members : Nat → Read (List (Option String × Json))
  | 0 => throw "nested too deeply"
  | fuel + 1 => do
    skipSpace
    let name ← string?
    skipSpace
    expect ":"
    let found ← value fuel
    match ← nextSign with
    | ',' => do
      expect ","
      return (name, found) :: (← members fuel)
    | _ => do
      expect "\x7d"
      return [(name, found)]

end

/-- The document that a text is. -/
def read (text : String) : Except String Json := do
  let (document, rest) ← (value (text.length + 1)).run text.toList
  if (rest.dropWhile isSpace).isEmpty then return document
  throw "trailing characters"

end StyleTokens.Json

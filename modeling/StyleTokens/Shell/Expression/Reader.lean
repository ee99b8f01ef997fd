/-
Regular expressions as they are written.

* `Expression.Form` — the forms in which expressions are written;
* `Expression.Written` — what was read;
* `Expression.read` — an expression as it is written, or why it is none.

Design notes: a repetition needs something that it repeats.  Where nothing stands
before it, the basic form takes its sign for itself; the extended form refuses it or, if
it is lenient, passes it over and notes that.  Anchors are nothing that is repeated.
-/
import StyleTokens.Shell.Expression

namespace StyleTokens.Shell.Expression

/-- How expressions are written. -/
structure Form where
  /-- Whether operators such as `+` and `(` have no backslash. -/
  extended : Bool := false
  /-- Whether operators that are out of place are taken as they come. -/
  lenient : Bool := false
  deriving DecidableEq, Repr, Inhabited

/-- The basic form. -/
def Form.basic : Form := {}

/-- What was read. -/
structure Written where
  expression : Expression
  /-- The number of groups. -/
  groups : Nat
  /-- The repetitions that were passed over. -/
  ignored : List String
  /-- Whether a class was written without the outer brackets. -/
  bareClass : Bool
  deriving Inhabited

/-- What is left of an expression, how many groups were opened, which were closed, and
what was noted. -/
structure Reader where
  rest : List Char
  opened : Nat := 0
  closed : List Nat := []
  ignored : List String := []
  bareClass : Bool := false
  deriving Inhabited

/-- A step of reading. -/
abbrev Read := StateT Reader (Except String)

/-- A single sign. -/
def single (c : Char) : Expression :=
  sign false [.range c c]

/-- Any sign. -/
def anySign : Expression :=
  sign true []

/-- An expression and what comes after it. -/
def followedBy (first : Expression) : Expression → Expression
  | empty => first
  | second => sequence first second

/-- Signs of words. -/
def wordSigns : List Bracketed :=
  [.named isWordSign]

/-- Blanks. -/
def blankSigns : List Bracketed :=
  [.named fun c => c = ' ' || (9 ≤ c.toNat && c.toNat ≤ 13)]

/-! Complaints -/

/-- The complaint about a bracket that is not closed. -/
def openBracket : String :=
  "Unmatched [, [^, [:, [., or [="

/-- The complaint about bounds. -/
def badBounds : String :=
  "Invalid content of \\\x7b\\\x7d"

/-- The complaint about a repetition of nothing. -/
def badRepetition : String :=
  "Invalid preceding regular expression"

/-- The complaint about what is too much. -/
def tooBig : String :=
  "Regular expression too big"

/-! Brackets -/

/-- The name between two marks behind an opening bracket, and the text after it. -/
def marked? (mark : Char) (text : List Char) : Option (List Char × List Char) :=
  let rec go : List Char → List Char → Option (List Char × List Char)
    | before, c :: ']' :: rest =>
      if c = mark then some (before.reverse, rest) else go (c :: before) (']' :: rest)
    | before, c :: rest => go (c :: before) rest
    | _, [] => none
  go [] text

/-- A member of a bracket: a class, or a sign that may start a range. -/
def member : List Char → Except String (Sum (Char → Bool) Char × List Char)
  | '[' :: ':' :: rest =>
    match marked? ':' rest with
    | some (name, after) =>
      match Wildcard.classes.lookup (String.ofList name) with
      | some inside => return (.inl inside, after)
      | none => throw "Invalid character class name"
    | none => throw openBracket
  | '[' :: c :: rest =>
    if c = '.' || c = '=' then
      match marked? c rest with
      | some ([d], after) => return (.inr d, after)
      | some _ => throw "Invalid collation character"
      | none => throw openBracket
    else return (.inr '[', c :: rest)
  | c :: rest => return (.inr c, rest)
  | [] => throw openBracket

/-- A range that starts with a member, or the member itself, and the text after it. -/
def span (start : Sum (Char → Bool) Char) (rest : List Char) :
    Except String (Bracketed × List Char) := do
  let alone : Bracketed :=
    match start with
    | .inl inside => .named inside
    | .inr c => .range c c
  match rest with
  | ['-'] => throw openBracket
  | '-' :: ']' :: _ => return (alone, rest)
  | '-' :: after =>
    match start, ← member after with
    | .inr c, (.inr d, after) =>
      if d < c then throw "Invalid range end"
      return (.range c d, after)
    | _, _ => throw "Invalid range end"
  | _ => return (alone, rest)

/-- The members of a bracket up to the closing one; `fuel` is at least the length of the
text. -/
def members : (fuel : Nat) → (first : Bool) → List Char →
    Except String (List Bracketed × List Char)
  | 0, _, _ => throw openBracket
  | fuel + 1, first, text => do
    if !first && text.head? = some ']' then return ([], text.drop 1)
    let (start, rest) ←
      match text with
      | ']' :: rest => pure (.inr ']', rest)
      | _ => member text
    if !first && text.head? = some '-' && !rest.isEmpty && rest.head? ≠ some ']' then
      throw "Invalid range end"
    let (found, rest) ← span start rest
    let (more, after) ← members fuel false rest
    return (found :: more, after)

/-- A bracket, behind its first sign. -/
def bracket : Read Expression := do
  let text := (← get).rest
  let (negated, body) :=
    match text with
    | '^' :: body => (true, body)
    | body => (false, body)
  if body.isEmpty then throw "Invalid regular expression"
  let (found, after) ← members (body.length + 1) true body
  let inner := text.take (text.length - after.length - 1)
  let bare := 2 < inner.length && inner.head? = some ':' && inner.getLast? = some ':'
  modify fun reader => { reader with rest := after, bareClass := reader.bareClass || bare }
  return sign negated found

/-! Repetitions -/

/-- The greatest number of repetitions that is understood. -/
def repetitionLimit : Nat := 32767

/-- A number at the start of a text, and the text after it. -/
def natural (text : List Char) : Option Nat × List Char :=
  let digits := text.takeWhile Char.isDigit
  let value := digits.foldl (fun n c => n * 10 + (c.toNat - 48)) 0
  (if digits.isEmpty then none else some value, text.drop digits.length)

/-- A repetition. -/
structure Repetition where
  least : Nat
  most : Option Nat
  rest : List Char

/-- Bounds of a repetition, behind the opening sign; none if a lenient form takes the
sign for itself. -/
def bounds (form : Form) (text : List Char) : Except String (Option Repetition) := do
  let closing : List Char := if form.extended then ['\x7d'] else ['\\', '\x7d']
  let isOver := fun (text : List Char) => closing.isPrefixOf text
  let wrong : Except String (Option Repetition) :=
    if form.extended && form.lenient then pure none
    else
      let closed := (List.range (text.length + 1)).any fun n => isOver (text.drop n)
      throw (if closed then badBounds else "Unmatched \\\x7b")
  let checked := fun (least : Nat) (most : Option Nat) (rest : List Char) => do
    if most.any (· < least) || !isOver rest then throw badBounds
    if repetitionLimit < most.getD least then throw tooBig
    return some { least, most, rest := rest.drop closing.length }
  let (least, rest) := natural text
  match least, rest with
  | none, ',' :: after | some _, ',' :: after =>
    let (most, rest) := natural after
    if isOver rest || rest.head? = some ',' then checked (least.getD 0) most rest else wrong
  | some least, rest => if isOver rest then checked least (some least) rest else wrong
  | none, rest => if isOver rest then throw badBounds else wrong

/-- The sign of the repetition that a text starts with, and how many signs it takes. -/
def operator? (form : Form) : List Char → Option (Char × Nat)
  | '*' :: _ => some ('*', 1)
  | '\\' :: c :: _ => if !form.extended && "+?\x7b".toList.contains c then some (c, 2) else none
  | c :: _ => if form.extended && "+?\x7b".toList.contains c then some (c, 1) else none
  | [] => none

/-- The repetition that a text starts with. -/
def repetition? (form : Form) (text : List Char) : Except String (Option Repetition) :=
  match operator? form text with
  | none => return none
  | some ('\x7b', count) => bounds form (text.drop count)
  | some (c, count) =>
    return some {
      least := if c = '+' then 1 else 0
      most := if c = '?' then some 1 else none
      rest := text.drop count }

/-- An expression with the repetitions that follow it. -/
def repetitions (form : Form) : (fuel : Nat) → Expression → Read Expression
  | 0, body => return body
  | fuel + 1, body => do
    match ← (repetition? form (← get).rest : Except String _) with
    | some found =>
      modify fun reader => { reader with rest := found.rest }
      repetitions form fuel (repeated found.least found.most body)
    | none => return body

/-! Whole expressions -/

/-- Whether a group or an alternative ends at the start of a text. -/
def isBranchEnd (form : Form) (depth : Nat) : List Char → Bool
  | [] => true
  | '|' :: _ => form.extended
  | ')' :: _ => form.extended && (0 < depth || !form.lenient)
  | '\\' :: c :: _ => !form.extended && (c = '|' || c = ')')
  | _ => false

/-- Goes on behind so many signs. -/
def skip (count : Nat) : Read Unit :=
  modify fun reader => { reader with rest := reader.rest.drop count }

/-- What a letter behind a backslash stands for. -/
def escape? (c : Char) : Option Expression :=
  match c with
  | 'w' => some (sign false wordSigns)
  | 'W' => some (sign true wordSigns)
  | 's' => some (sign false blankSigns)
  | 'S' => some (sign true blankSigns)
  | _ => none

/-- The anchor that a text starts with, and how many signs it takes; `fresh` tells that
nothing came before. -/
def anchor? (form : Form) (fresh : Bool) (depth : Nat) : List Char → Option (Expression × Nat)
  | '^' :: _ => if form.extended || fresh then some (lineStart, 1) else none
  | '$' :: rest =>
    if form.extended || isBranchEnd form depth rest then some (lineEnd, 1) else none
  | '\\' :: 'b' :: _ => some (border false, 2)
  | '\\' :: 'B' :: _ => some (border true, 2)
  | '\\' :: '<' :: _ => some (wordStart, 2)
  | '\\' :: '>' :: _ => some (wordEnd, 2)
  | '\\' :: '\u0060' :: _ => some (textStart, 2)
  | '\\' :: '\'' :: _ => some (textEnd, 2)
  | _ => none

/-- Takes a repetition for which nothing stands before: the sign that it is, if it is
taken for itself. -/
def outOfPlace (form : Form) : Read (Option Char) := do
  let text := (← get).rest
  match operator? form text with
  | none => return none
  | some (c, count) =>
    if !form.extended then
      if c = '\x7b' && !form.lenient then throw badRepetition
      skip count
      return some c
    if !form.lenient then throw badRepetition
    match ← (repetition? form text : Except String _) with
    | none =>
      skip count
      return some c
    | some found =>
      let name := if c = '\x7b' then "\x7b...\x7d" else String.singleton c
      modify fun reader => { reader with rest := found.rest, ignored := reader.ignored ++ [name] }
      return none

mutual

/-- Alternatives up to the end or the end of a group. -/
def alternatives (form : Form) : (fuel : Nat) → (depth : Nat) → Read Expression
  | 0, _ => throw tooBig
  | fuel + 1, depth => do
    let first ← branch form fuel depth true
    match (← get).rest with
    | '|' :: _ =>
      if !form.extended then return first
      skip 1
      return either first (← alternatives form fuel depth)
    | '\\' :: '|' :: _ =>
      skip 2
      return either first (← alternatives form fuel depth)
    | _ => return first

/-- Parts one after another; `fresh` tells that nothing came before. -/
def branch (form : Form) : (fuel : Nat) → (depth : Nat) → (fresh : Bool) → Read Expression
  | 0, _, _ => throw tooBig
  | fuel + 1, depth, fresh => do
    let text := (← get).rest
    if isBranchEnd form depth text then return empty
    if let some (anchor, count) := anchor? form fresh depth text then
      skip count
      return followedBy anchor (← branch form fuel depth true)
    let isOperator := fresh && (operator? form text).isSome
    let start ← if isOperator then outOfPlace form else pure none
    match start with
    | some c =>
      let body ← repetitions form fuel (single c)
      return followedBy body (← branch form fuel depth false)
    | none =>
      if isOperator then branch form fuel depth true
      else
        let body ← repetitions form fuel (← atom form fuel depth)
        return followedBy body (← branch form fuel depth false)

/-- A single part. -/
def atom (form : Form) : (fuel : Nat) → (depth : Nat) → Read Expression
  | 0, _ => throw tooBig
  | fuel + 1, depth => do
    let inGroup := do
      let number := (← get).opened + 1
      modify fun reader => { reader with opened := number }
      let body ← alternatives form fuel (depth + 1)
      let closing : List Char := if form.extended then [')'] else ['\\', ')']
      if !closing.isPrefixOf (← get).rest then throw "Unmatched ( or \\("
      skip closing.length
      modify fun reader => { reader with closed := number :: reader.closed }
      return group number body
    match (← get).rest with
    | [] => return empty
    | '\\' :: [] => throw "Trailing backslash"
    | '\\' :: c :: _ =>
      skip 2
      if !form.extended && c = '(' then inGroup
      else if c.isDigit && c ≠ '0' then
        let number := c.toNat - 48
        if !(← get).closed.contains number then throw "Invalid back reference"
        return same number
      else return (escape? c).getD (single c)
    | '[' :: _ =>
      skip 1
      bracket
    | '.' :: _ =>
      skip 1
      return anySign
    | c :: _ =>
      skip 1
      if form.extended && c = '(' then inGroup else return single c

end

/-- An expression as it is written, or why it is none. -/
def read (form : Form) (text : List Char) : Except String Written := do
  let (expression, reader) ← (alternatives form (4 * text.length + 8) 0).run { rest := text }
  match reader.rest with
  | [] =>
    return {
      expression
      groups := reader.opened
      ignored := reader.ignored
      bareClass := reader.bareClass }
  | _ => throw "Unmatched ) or \\)"

end StyleTokens.Shell.Expression

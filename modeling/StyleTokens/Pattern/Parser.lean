/-
Reading a pattern from its notation.

* `Pattern.parse` — the pattern that a text denotes, or why it denotes none.

Design notes: a reading is the text left, the flags in force and the group names
given out so far.  Flags set by `(?i)` last to the end of the group around them.
Nested groups are read by a recursion on fuel; since each step takes a character
of the text, its length is enough.  In verbose mode (`x`) white space and
comments may stand between any two signs, also within a class.  The parts of a
pattern are kept together with their height and the storage that a program of
them takes, both of which are limited.
-/
import StyleTokens.Count
import StyleTokens.Pattern.Basic
import StyleTokens.Text.Blank
import StyleTokens.Text.Letter

namespace StyleTokens.Pattern

open Text (isBlank isLetter isNumeral)

/-- How the notation is to be understood. -/
structure Flags where
  /-- `i`: ASCII letters match in either case. -/
  caseless : Bool := false
  /-- `m`: the line anchors match at every line. -/
  lines : Bool := false
  /-- `s`: a dot matches a line feed too. -/
  dotAll : Bool := false
  /-- `R`: a carriage return ends a line as well. -/
  returns : Bool := false
  /-- `U`: repetitions are lazy unless marked. -/
  lazy : Bool := false
  /-- `x`: white space and comments are skipped. -/
  verbose : Bool := false
  deriving DecidableEq, Repr

/-- Where the reading of a notation stands. -/
structure Reading where
  rest : List Char
  flags : Flags
  /-- Group names given out. -/
  names : List String

/-- A step of reading. -/
abbrev Read := StateT Reading (Except Flaw)

/-- What one sign or escape stands for. -/
inductive Item
  | char (c : Char)
  | set (chars : CharSet)
  | place (condition : Assertion)

/-- What the opening of a group announces. -/
inductive Opening
  | plain
  | unnamed
  | named (name : String)
  /-- Flags for the text that follows; there is no body. -/
  | settings

/-- Groups may be nested this deep, and so may the tree be. -/
def depthLimit : Nat := 50

/-- A program may take this many bytes. -/
def sizeLimit : Nat := 0xA00000

/-- The bytes of a state of a program. -/
def stateSize : Nat := 32

/-- The bytes of a state with several ways out of it. -/
def forkSize (ways : Nat) : Nat :=
  stateSize + 4 * ways

/-- A pattern with the height of its tree and the bytes of its program: those of
the states, of which every copy has its own, and those of the list of groups. -/
structure Fragment where
  pattern : Pattern
  depth : Nat
  states : Nat := stateSize
  groups : Nat := 0

namespace Fragment

/-- The pattern of no parts. -/
def empty : Fragment :=
  ⟨.empty, 0, stateSize, 0⟩

/-- A single character. -/
def char (c : Char) : Fragment :=
  ⟨.one (.single c), 0, stateSize, 0⟩

/-- A single character of a set; each of its ranges takes room. -/
def oneOf (set : CharSet) : Fragment :=
  ⟨.one set, 0, stateSize + 8 * set.ranges.length, 0⟩

/-- A condition. -/
def place (condition : Assertion) : Fragment :=
  ⟨.assert condition, 0, stateSize, 0⟩

/-- A group, which records where it matched if it has a name. -/
def group (name : Option String) (body : Fragment) : Fragment :=
  { pattern := name.elim body.pattern fun name => .group name body.pattern
    depth := body.depth + 1
    states := body.states + 2 * stateSize
    groups := body.groups + 16 + name.elim 0 fun name => name.utf8ByteSize + 4 }

/-- The greatest depth of several parts. -/
def heightOf (parts : List Fragment) : Nat :=
  (parts.map (·.depth)).foldl max 0

/-- The parts one after another. -/
def seq : List Fragment → Fragment
  | [] => empty
  | [part] => part
  | parts =>
    ⟨seqOf (parts.map (·.pattern)), heightOf parts + 1,
      Count.total (parts.map (·.states)), Count.total (parts.map (·.groups))⟩

/-- The parts as alternatives. -/
def alt : List Fragment → Fragment
  | [part] => part
  | parts =>
    ⟨altOf (parts.map (·.pattern)), heightOf parts + 1,
      Count.total (parts.map (·.states)) + forkSize parts.length + stateSize,
      Count.total (parts.map (·.groups))⟩

/-- The bytes of the states of a repetition of a part. -/
def roundStates (low : Nat) (high : Option Nat) (body : Fragment) : Nat :=
  match low, high with
  | 0, none =>
    body.states + if body.pattern.matchesNothing then 2 * forkSize 2 + stateSize else forkSize 2
  | low, none => low * body.states + forkSize 2
  | 0, some 1 => body.states + forkSize 2 + stateSize
  | 0, some high => high * (body.states + forkSize 2) + 2 * stateSize
  | low, some high =>
    if low = high then low * body.states
    else low * body.states + (high - low) * (body.states + forkSize 2) + stateSize

/-- A repetition of a part. -/
def rounds (low : Nat) (high : Option Nat) (greedy : Bool) (body : Fragment) : Fragment :=
  if high = some 0 then empty
  else if low = 1 && high = some 1 then body
  else
    ⟨.rounds low high greedy body.pattern, body.depth + 1, roundStates low high body, body.groups⟩

/-- The bytes of a program that searches for the pattern. -/
def size (whole : Fragment) : Nat :=
  whole.states + whole.groups + 3 * stateSize + 16

end Fragment

/-- The text after white space and comments; `comment` says that it starts
inside a comment. -/
def skipVerbose : Bool → List Char → List Char
  | _, [] => []
  | true, c :: rest => skipVerbose (c != '\n') rest
  | false, c :: rest =>
    if isBlank c then skipVerbose false rest
    else if c = '#' then skipVerbose true rest
    else c :: rest

/-- The text after what the flags let stand between two signs. -/
def skipped (flags : Flags) (rest : List Char) : List Char :=
  if flags.verbose then skipVerbose false rest else rest

/-- The sign that a look beyond a hyphen in a class meets: in verbose mode it
passes white space and the sign of a comment, but not the comment. -/
def beyond? (flags : Flags) (rest : List Char) : Option Char :=
  if !flags.verbose then rest.head?
  else
    let next := rest.dropWhile isBlank
    let next := if next.head? = some '#' then next.tail.dropWhile isBlank else next
    next.head? <|> rest.head?

/-- The next sign. -/
def peek : Read (Option Char) :=
  return (← get).rest.head?

/-- Passes the next sign. -/
def bump : Read Unit :=
  modify fun r => { r with rest := r.rest.tail }

/-- Passes what the flags let stand between two signs. -/
def skipBlanks : Read Unit :=
  modify fun r => { r with rest := skipped r.flags r.rest }

/-- `bump`, then `skipBlanks`. -/
def bumpOver : Read Unit := do
  bump
  skipBlanks

/-- Passes a fixed text if it is next. -/
def accept (text : String) : Read Bool := do
  let r ← get
  if text.toList.isPrefixOf r.rest then
    set { r with rest := r.rest.drop text.length }
    return true
  return false

/-- Whether a fixed text is next. -/
def ahead (text : String) : Read Bool :=
  return text.toList.isPrefixOf (← get).rest

/-- The next sign, which has to be there. -/
def need (flaw : Flaw) : Read Char := do
  match ← peek with
  | some c => return c
  | none => throw flaw

/-- The longest run of at most `most` signs of a kind. -/
def takeRun (ok : Char → Bool) : Nat → Read (List Char)
  | 0 => return []
  | most + 1 => do
    match ← peek with
    | some c =>
      if ok c then
        bumpOver
        return c :: (← takeRun ok most)
      return []
    | none => return []

/-- `takeRun` without a limit. -/
def takeAll (ok : Char → Bool) : Read (List Char) := do
  takeRun ok (← get).rest.length

/-- The value of a digit in bases up to sixteen. -/
def digitValue (c : Char) : Nat :=
  if c.isDigit then c.toNat - 48
  else if c.isLower then c.toNat - 87
  else c.toNat - 55

/-- The number that digits denote. -/
def number (base : Nat) (digits : List Char) : Nat :=
  digits.foldl (fun n c => n * base + digitValue c) 0

/-- Whether a sign is a hexadecimal digit. -/
def isHexDigit (c : Char) : Bool :=
  c.isDigit || ('a' ≤ c && c ≤ 'f') || ('A' ≤ c && c ≤ 'F')

/-- A character as it stands for itself. -/
def literal (c : Char) : Read Item := do
  if (← get).flags.caseless && c.isAlpha then
    return .set (.caseless (.single c))
  return .char c

/-- The character with the code point that digits denote. -/
def codePoint (digits : List Char) : Read Item := do
  let n := number 16 digits
  if digits.isEmpty || !(n < 0xD800 || (0xDFFF < n && n < 0x110000)) then throw .codePoint
  literal (Char.ofNat n)

/-- A code point in hexadecimal, of a fixed length or in braces. -/
def hexadecimal (digits : Nat) : Read Item := do
  bumpOver
  if (← peek) = some '\x7b' then
    bumpOver
    let found ← takeAll isHexDigit
    if (← peek) ≠ some '\x7d' then throw .codePoint
    bumpOver
    codePoint found
  else
    let found ← takeRun isHexDigit digits
    if found.length ≠ digits then throw .codePoint
    codePoint found

/-- The set of a class letter; a capital letter stands for the complement. -/
def classLetter? : Char → Option CharSet
  | 'd' => some .digit
  | 's' => some .space
  | 'w' => some .word
  | 'D' => some (.complement .digit)
  | 'S' => some (.complement .space)
  | 'W' => some (.complement .word)
  | _ => none

/-- The character that an escape letter names. -/
def control? : Char → Option Char
  | 'a' => some '\x07'
  | 'f' => some '\x0c'
  | 't' => some '\t'
  | 'n' => some '\n'
  | 'r' => some '\r'
  | 'v' => some '\x0b'
  | _ => none

/-- Whether a backslash may make a sign stand for itself. -/
def escapable (c : Char) : Bool :=
  c.toNat < 128 && !c.isAlphanum && c ≠ '<' && c ≠ '>'

/-- After `\b`: one of the word boundaries named in braces, if there is one. -/
def wordEdge : Read Item := do
  let before ← get
  let ok := fun (c : Char) => c.isAlpha || c == '-'
  if (← peek) ≠ some '\x7b' then return .place .wordEdge
  bumpOver
  if !ok (← need .wordEdge) then
    set before
    return .place .wordEdge
  let name ← takeAll ok
  if (← peek) ≠ some '\x7d' then throw .wordEdge
  bump
  match String.ofList name with
  | "start" => return .place .wordStart
  | "end" => return .place .wordEnd
  | "start-half" => return .place .noWordBefore
  | "end-half" => return .place .noWordAfter
  | _ => throw .wordEdge

/-- An escape, from its backslash on. -/
def escape : Read Item := do
  bump
  let c ← need .unfinishedEscape
  if c.isDigit then throw .backReference
  if c = 'p' || c = 'P' then throw .unicodeClass
  match c with
  | 'x' => hexadecimal 2
  | 'u' => hexadecimal 4
  | 'U' => hexadecimal 8
  | _ =>
    bump
    if let some chars := classLetter? c then return .set chars
    if escapable c then return ← literal c
    if let some c := control? c then return .char c
    match c with
    | 'A' => return .place .textStart
    | 'z' => return .place .textEnd
    | 'b' => wordEdge
    | 'B' => return .place .noWordEdge
    | '<' => return .place .wordStart
    | '>' => return .place .wordEnd
    | _ => throw (.unknownEscape c)

/-- One item of a class; within a class a plain sign keeps its case. -/
def classItem : Read Item := do
  let c ← need .unclosedClass
  if c = '\\' then escape
  else
    bump
    return .char c

/-- The characters of a class item. -/
def Item.charSet : Item → Read CharSet
  | .char c => return .single c
  | .set chars => return chars
  | .place _ => throw .classItem

/-- The character of a class item that bounds a range. -/
def Item.bound : Item → Read Char
  | .char c => return c
  | _ => throw .classItem

/-- A single item of a class, or a range. -/
def classRange : Read CharSet := do
  let low ← classItem
  skipBlanks
  let c ← need .unclosedClass
  let r ← get
  let next := beyond? r.flags r.rest.tail
  if c ≠ '-' || next = some ']' || next = some '-' then return ← low.charSet
  bumpOver
  let high ← classItem
  let low ← low.bound
  let high ← high.bound
  if high < low then throw .reversedRange
  return .span low high

/-- A named class such as `[:alpha:]`, if one is next. -/
def namedClass? : Read (Option CharSet) := do
  let before ← get
  if ← accept "[:" then
    let negated ← accept "^"
    let r ← get
    let name := r.rest.takeWhile (· ≠ ':')
    set { r with rest := r.rest.dropWhile (· ≠ ':') }
    if ← accept ":]" then
      if let some found := CharSet.named? name then
        return some (if negated then .complement found else found)
  set before
  return none

/-- The rest of a class up to its bracket. -/
def classBody : Nat → List CharSet → Read (List CharSet)
  | 0, _ => throw .unclosedClass
  | fuel + 1, sets => do
    skipBlanks
    match ← need .unclosedClass with
    | ']' =>
      bump
      return sets
    | '[' =>
      match ← namedClass? with
      | some found => classBody fuel (found :: sets)
      | none => throw .nestedClass
    | _ =>
      if (← ahead "&&") || (← ahead "--") || (← ahead "~~") then throw .classOperator
      classBody fuel ((← classRange) :: sets)

/-- Leading hyphens of a class stand for themselves. -/
def leadingHyphens : Nat → List CharSet → Read (List CharSet)
  | 0, sets => return sets
  | fuel + 1, sets => do
    if (← need .unclosedClass) = '-' then
      bumpOver
      leadingHyphens fuel (.single '-' :: sets)
    else
      return sets

/-- A class, from its bracket on.  It is closed under changes of case before it
is negated. -/
def charClass : Read CharSet := do
  let fuel := (← get).rest.length
  bumpOver
  let negated := (← need .unclosedClass) = '^'
  if negated then bumpOver
  let hyphens ← leadingHyphens fuel []
  let first ←
    if hyphens.isEmpty && (← need .unclosedClass) = ']' then do
      bumpOver
      pure [CharSet.single ']']
    else pure hyphens
  let sets := CharSet.unionOf (← classBody fuel first)
  let sets := if (← get).flags.caseless then .caseless sets else sets
  return if negated then .complement sets else sets

/-- One flag switched on or off; `u` is a flag without a meaning. -/
def setFlag (flags : Flags) (value : Bool) : Char → Read Flags
  | 'i' => return { flags with caseless := value }
  | 'm' => return { flags with lines := value }
  | 's' => return { flags with dotAll := value }
  | 'R' => return { flags with returns := value }
  | 'U' => return { flags with lazy := value }
  | 'x' => return { flags with verbose := value }
  | 'u' => return flags
  | c => throw (.unknownFlag c)

/-- Flags up to the colon or bracket behind them. -/
def flagList : Nat → Bool → List Char → Flags → Read Flags
  | 0, _, _, _ => throw .unclosedGroup
  | fuel + 1, value, seen, flags => do
    let c ← need .unclosedGroup
    if c = ':' || c = ')' then
      if seen.head? = some '-' then throw .negation
      return flags
    if c = '-' then
      if !value then throw .negation
      bump
      flagList fuel false ('-' :: seen) flags
    else
      let flags ← setFlag flags value c
      if seen.contains c then throw (.repeatedFlag c)
      bump
      flagList fuel value (c :: seen) flags

/-- Whether a sign may stand in a group name. -/
def nameSign (first : Bool) (c : Char) : Bool :=
  c == '_' || isLetter c || (!first && (c == '.' || c == '[' || c == ']' || isNumeral c))

/-- A group name up to its bracket. -/
def groupName : Read String := do
  let r ← get
  let name := r.rest.takeWhile (· ≠ '>')
  match name with
  | [] => throw .groupName
  | c :: more =>
    if !nameSign true c || !more.all (nameSign false) || name.length = r.rest.length then
      throw .groupName
    let name := String.ofList name
    if r.names.contains name then throw (.repeatedName name)
    set { r with rest := r.rest.drop (more.length + 2), names := name :: r.names }
    return name

/-- The opening of a group, from its bracket on. -/
def opening : Read Opening := do
  bumpOver
  if (← ahead "?=") || (← ahead "?!") || (← ahead "?<=") || (← ahead "?<!") then
    throw .lookAround
  if (← accept "?P<") || (← accept "?<") then
    return .named (← groupName)
  if ← accept "?" then
    let r ← get
    let flags ← flagList (r.rest.length + 1) true [] r.flags
    modify fun r => { r with flags }
    if (← peek) = some ')' then
      if r.rest.head? = some ')' then throw .noFlags
      return .settings
    bump
    return .plain
  return .unnamed

/-- Whether a repetition is greedy, which a question mark behind it changes. -/
def greediness : Read Bool := do
  let marked ← accept "?"
  return marked == (← get).flags.lazy

/-- A decimal number with white space around it. -/
def decimal : Read Nat := do
  modify fun r => { r with rest := Text.trimLeft r.rest }
  let digits ← takeAll Char.isDigit
  modify fun r => { r with rest := Text.trimLeft r.rest }
  skipBlanks
  let n := number 10 digits
  if digits.isEmpty || n ≥ 0x100000000 then throw .count
  return n

/-- The bounds of a counted repetition, from its brace on. -/
def bounds : Read (Nat × Option Nat) := do
  bumpOver
  let low ← decimal
  let high ←
    if ← accept "," then do
      skipBlanks
      if (← peek) = some '\x7d' then pure none else pure (some (← decimal))
    else pure (some low)
  if (← peek) ≠ some '\x7d' then throw .count
  bumpOver
  if high.any (· < low) then throw .reversedCount
  return (low, high)

/-- The bounds of a repetition by one sign. -/
def repetition? : Char → Option (Nat × Option Nat)
  | '?' => some (0, some 1)
  | '*' => some (0, none)
  | '+' => some (1, none)
  | _ => none

/-- A sign that is neither group, class nor repetition. -/
def primitive (c : Char) : Read Fragment := do
  let flags := (← get).flags
  if c = '\\' then
    match ← escape with
    | .char c => return .char c
    | .set chars => return .oneOf chars
    | .place condition => return .place condition
  bump
  match c with
  | '.' =>
    let ends := if flags.returns then .union (.single '\r') (.single '\n') else .single '\n'
    return .oneOf (.complement (if flags.dotAll then .nothing else ends))
  | '^' =>
    return .place
      (if !flags.lines then .textStart else if flags.returns then .anyLineStart else .lineStart)
  | '$' =>
    return .place
      (if !flags.lines then .textEnd else if flags.returns then .anyLineEnd else .lineEnd)
  | c =>
    match ← literal c with
    | .set chars => return .oneOf chars
    | _ => return .char c

/-- Alternatives up to the end of the text or of the group, `depth` groups deep.
Both lists are kept in reverse: the alternatives complete so far and the parts
of the current one. -/
def alternatives : Nat → Nat → List Fragment → List Fragment → Read Fragment
  | 0, _, _, _ => throw .tooDeep
  | fuel + 1, depth, complete, parts => do
    skipBlanks
    let whole := Fragment.alt (Fragment.seq parts.reverse :: complete).reverse
    match ← peek with
    | none => return whole
    | some '(' =>
      let flags := (← get).flags
      let parts ←
        match ← opening with
        | .settings => pure parts
        | start => do
          if depth ≥ depthLimit then throw .tooDeep
          let body ← alternatives fuel (depth + 1) [] []
          modify fun r => { r with flags }
          match start with
          | .named name => pure (.group (some name) body :: parts)
          | .unnamed => pure (.group none body :: parts)
          | _ => pure (body :: parts)
      if !(← accept ")") then throw .unclosedGroup
      alternatives fuel depth complete parts
    | some ')' => if depth = 0 then throw .unopenedGroup else return whole
    | some '|' =>
      bump
      alternatives fuel depth (.seq parts.reverse :: complete) []
    | some '[' =>
      let chars ← charClass
      alternatives fuel depth complete (.oneOf chars :: parts)
    | some c =>
      if c = '\x7b' || (repetition? c).isSome then
        match parts with
        | [] => throw .nothingToRepeat
        | last :: others =>
          let (low, high) ←
            match repetition? c with
            | some bounds => do
              bump
              pure bounds
            | none => bounds
          let greedy ← greediness
          alternatives fuel depth complete (last.rounds low high greedy :: others)
      else
        let part ← primitive c
        alternatives fuel depth complete (part :: parts)

/-- The pattern that a text denotes. -/
def parse (text : String) : Except Flaw Pattern := do
  let start : Reading := ⟨text.toList, {}, []⟩
  let (whole, _) ← (alternatives (text.length + 1) 0 [] []).run start
  if whole.depth > depthLimit then throw .tooDeep
  if whole.size > sizeLimit then throw .tooLarge
  return whole.pattern

end StyleTokens.Pattern

/-
Conditions of the `test` command.

* `Sight` — what a condition can look at: the world as a process sees it;
* `Condition.holds` — whether a condition holds, or why it is none.

Design notes: a condition is evaluated as it is read, so that of two problems the
first one shows.  The word that is looked at stays the first of those left, and a step
is taken before the next one is looked at.
-/
import StyleTokens.Shell.Arithmetic
import StyleTokens.Shell.World

namespace StyleTokens.Shell

/-- The world as a process sees it. -/
structure Sight where
  world : World
  id : Nat
  here : Place
  deriving Inhabited

namespace Sight

/-- What a path leads to, and where it is. -/
def found? (sight : Sight) (followLast : Bool) (path : String) : Option (Option Place × Entry) :=
  (sight.world.entryAt sight.id sight.here followLast path).toOption

/-- The permissions of what a path leads to. -/
def mode? (sight : Sight) (path : String) : Option Nat :=
  (sight.found? true path).map fun (place?, entry) =>
    match place? with
    | some place => sight.world.modeOf place entry
    | none => 0o600

/-- Bytes that a directory counts for. -/
def directorySize : Nat := 4096

/-- The size of what a path leads to. -/
def size? (sight : Sight) (path : String) : Option Nat :=
  (sight.found? true path).map fun
    | (_, .file data) => data.size
    | (_, .directory) => directorySize
    | _ => 0

/-- The number of the last change of a file. -/
def changed? (sight : Sight) (path : String) : Option Nat :=
  (sight.found? true path).map fun (place?, _) =>
    (place?.map fun place => (sight.world.traitsOf place).changed).getD 0

/-- Whether two paths lead to the same file. -/
def areSame (sight : Sight) (first second : String) : Bool :=
  match sight.found? true first, sight.found? true second with
  | some (some place, _), some (some other, _) => (sight.world.names place).contains other
  | _, _ => false

end Sight

namespace Condition

/-- A sign of conditions. -/
inductive Sign
  /-- A question about one word. -/
  | unary (letter : Char)
  /-- A comparison of two words. -/
  | binary (name : String)
  | negation | both | either | opened | closed
  deriving DecidableEq, Repr, Inhabited

/-- The letters of questions about one word. -/
def letters : List Char :=
  "rwxefdcbpugkstznhOGLS".toList

/-- The names of comparisons. -/
def comparisons : List String :=
  ["=", "!=", "<", ">", "-eq", "-ne", "-ge", "-gt", "-le", "-lt", "-nt", "-ot", "-ef"]

/-- The sign that a word is. -/
def sign? (word : String) : Option Sign :=
  match word with
  | "!" => some .negation
  | "-a" => some .both
  | "-o" => some .either
  | "(" => some .opened
  | ")" => some .closed
  | _ =>
    if comparisons.contains word then some (.binary word)
    else
      match word.toList with
      | ['-', letter] => if letters.contains letter then some (.unary letter) else none
      | _ => none

/-- Whether a word is a comparison. -/
def isComparison (word : String) : Bool :=
  comparisons.contains word

/-- What a word is, in front of others. -/
inductive Lexeme
  | stop
  | operand
  | sign (sign : Sign)
  deriving DecidableEq, Repr, Inhabited

/-- What the first of the words is.  A question is a plain word if nothing follows it
or if what follows compares it. -/
def lexeme : List String → Lexeme
  | [] => .stop
  | word :: rest =>
    let isOperand :=
      match rest with
      | [] => true
      | [_] => false
      | next :: _ => isComparison next
    match sign? word with
    | some (.unary letter) => if isOperand then .operand else .sign (.unary letter)
    | some .opened => if rest.isEmpty then .operand else .sign .opened
    | some sign => .sign sign
    | none => .operand

/-- A step of evaluation; the state holds the words from the one that is looked at. -/
abbrev Eval := StateT (List String) (Except String)

/-- What the word is that is looked at. -/
def here : Eval Lexeme :=
  return lexeme (← get)

/-- What the next word is. -/
def next : Eval Lexeme :=
  return lexeme ((← get).drop 1)

/-- Goes on by so many words. -/
def step (count : Nat) : Eval Unit :=
  modify (·.drop count)

/-- The number that a word is. -/
def number (word : String) : Eval Int :=
  match Arithmetic.ofText (some 10) word.toList with
  | some n => return n
  | none => throw ("Illegal number: " ++ word)

/-- The answer to a question about a word. -/
def ask (sight : Sight) (letter : Char) (word : String) : Eval Bool := do
  let found := sight.found? true word
  let mode := (sight.mode? word).getD 0
  match letter with
  | 'z' => return word.isEmpty
  | 'n' => return !word.isEmpty
  | 't' =>
    discard (number word)
    return false
  | 'h' | 'L' =>
    match sight.found? false word with
    | some (_, .link _) => return true
    | _ => return false
  | 'd' => return found.any (·.2.isDirectory)
  | 'f' =>
    match found with
    | some (some _, .file _) => return true
    | _ => return false
  | 'p' =>
    match found with
    | some (none, .file _) => return true
    | _ => return false
  | 'c' =>
    match found with
    | some (_, .device _) => return true
    | _ => return false
  | 's' => return 0 < (sight.size? word).getD 0
  | 'x' => return mode &&& 0o111 ≠ 0
  | 'u' => return mode &&& 0o4000 ≠ 0
  | 'g' => return mode &&& 0o2000 ≠ 0
  | 'k' => return mode &&& 0o1000 ≠ 0
  | 'b' | 'S' => return false
  | _ => return found.isSome

/-- The answer to a comparison. -/
def compare (sight : Sight) (name first second : String) : Eval Bool := do
  let numbers := fun (holds : Int → Int → Bool) => do
    let left ← number first
    let right ← number second
    return holds left right
  match name with
  | "=" => return first = second
  | "!=" => return first ≠ second
  | "<" => return decide (first < second)
  | ">" => return decide (second < first)
  | "-eq" => numbers fun a b => a = b
  | "-ne" => numbers fun a b => a ≠ b
  | "-ge" => numbers fun a b => b ≤ a
  | "-gt" => numbers fun a b => b < a
  | "-le" => numbers fun a b => a ≤ b
  | "-lt" => numbers fun a b => a < b
  | "-nt" =>
    match sight.changed? first, sight.changed? second with
    | some a, some b => return b < a
    | _, _ => return false
  | "-ot" =>
    match sight.changed? first, sight.changed? second with
    | some a, some b => return a < b
    | _, _ => return false
  | _ => return sight.areSame first second

mutual

/-- Alternatives; `first` is what the word is that is looked at. -/
def either (sight : Sight) : Nat → (first : Lexeme) → Eval Bool
  | 0, _ => throw "too many arguments"
  | fuel + 1, first => do
    let left ← both sight fuel first
    if (← next) ≠ .sign .either then return left
    step 2
    let right ← either sight fuel (← here)
    return left || right

/-- Conditions that all have to hold. -/
def both (sight : Sight) : Nat → (first : Lexeme) → Eval Bool
  | 0, _ => throw "too many arguments"
  | fuel + 1, first => do
    let left ← negation sight fuel first
    if (← next) ≠ .sign .both then return left
    step 2
    let right ← both sight fuel (← here)
    return left && right

/-- A condition, perhaps negated. -/
def negation (sight : Sight) : Nat → (first : Lexeme) → Eval Bool
  | 0, _ => throw "too many arguments"
  | fuel + 1, first => do
    if first ≠ .sign .negation then return ← primary sight fuel first
    let following ← next
    if following ≠ .stop then step 1
    return !(← negation sight fuel following)

/-- A single condition. -/
def primary (sight : Sight) : Nat → (first : Lexeme) → Eval Bool
  | 0, _ => throw "too many arguments"
  | fuel + 1, first => do
    match first with
    | .stop => return false
    | .sign .opened =>
      step 1
      let inner ← here
      if inner = .sign .closed then return false
      let answer ← either sight fuel inner
      step 1
      if (← here) ≠ .sign .closed then throw "closing paren expected"
      return answer
    | .sign (.unary letter) =>
      step 1
      match (← get) with
      | [] => throw ("-" ++ String.singleton letter ++ ": argument expected")
      | word :: _ => ask sight letter word
    | _ =>
      match ← get with
      | word :: name :: rest =>
        if !isComparison name then return !word.isEmpty
        match rest with
        | [] => throw (name ++ ": argument expected")
        | other :: _ =>
          step 2
          compare sight name word other
      | word :: _ => return !word.isEmpty
      | [] => return false

end

/-- Whether the words make a condition that holds, with what they start with known. -/
def whole (sight : Sight) (first : Lexeme) (words : List String) : Except String Bool := do
  let (answer, rest) ← (either sight (8 * words.length + 8) first).run words
  match rest with
  | extra :: _ :: _ =>
    throw (if extra.isEmpty then "unexpected operator" else extra ++ ": unexpected operator")
  | _ => return answer

/-- Whether a condition holds.  Up to four words are looked at as a whole first. -/
def holds (sight : Sight) : (words : List String) → Except String Bool
  | [] => return false
  | words@([first, second, third]) =>
    if isComparison second then whole sight .operand words
    else if first = "(" && third = ")" then whole sight (lexeme [second]) [second]
    else if first = "!" then do return !(← holds sight [second, third])
    else whole sight (lexeme words) words
  | words@([first, second, third, last]) =>
    if first = "(" && last = ")" then whole sight (lexeme [second, third]) [second, third]
    else if first = "!" then do return !(← holds sight [second, third, last])
    else whole sight (lexeme words) words
  | words => whole sight (lexeme words) words

end Condition

end StyleTokens.Shell

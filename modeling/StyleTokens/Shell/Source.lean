/-
Scripts as they are read, sign by sign and token by token.

* `Source` — what is left of a script;
* `Token` — an operator, a word, or the start of a redirection;
* `Read` — a step of reading, which may find that the text is no script;
* `Read.peek`, `Read.next`, `Read.blanks` — signs; a backslash at the end of a line
  joins it with the next one.
-/
import StyleTokens.Shell.Statement

namespace StyleTokens.Shell

/-- A text that is no script, by the line at which this shows. -/
structure BadScript where
  line : Nat
  reason : String
  deriving DecidableEq, Repr, Inhabited

/-- A token. -/
inductive Token
  | newline
  /-- The end of the script. -/
  | stop
  | operator (text : String)
  | keyword (name : String)
  | word (word : Word)
  /-- The sign of a redirection; documents may have the tabs of their lines cut. -/
  | redirect (kind : RedirectKind) (stream : Nat) (cut : Bool)
  deriving Inhabited

/-- Words with a meaning of their own at the start of a command. -/
def keywords : List String :=
  ["!", "\x7b", "\x7d", "case", "do", "done", "elif", "else", "esac", "fi", "for", "if", "in",
    "then", "until", "while"]

/-- Names of commands that belong to the language; no function can have them. -/
def specialNames : List String :=
  [".", ":", "break", "continue", "eval", "exec", "exit", "export", "local", "readonly", "return",
    "set", "shift", "times", "trap", "unset"]

namespace Token

/-- The token in words. -/
def message : Token → String
  | newline => "newline"
  | stop => "end of file"
  | operator text | keyword text => "\"" ++ text ++ "\""
  | word _ => "word"
  | redirect .. => "redirection"

/-- Whether a token can end a list of commands. -/
def isEnd : Token → Bool
  | stop => true
  | operator text => text = ")" || text = ";;"
  | keyword name => ["do", "done", "elif", "else", "esac", "fi", "then", "\x7d"].contains name
  | _ => false

/-- Whether this is an operator. -/
def isOperator (text : String) : Token → Bool
  | operator other => text = other
  | _ => false

/-- Whether this is a keyword. -/
def isKeyword (name : String) : Token → Bool
  | keyword other => name = other
  | _ => false

end Token

/-- What is left of a script. -/
structure Source where
  rest : List Char
  line : Nat := 1
  /-- Lines of documents, which were taken out of the text behind the current line. -/
  taken : Nat := 0
  /-- A token that is read again. -/
  pushed : Option Token := none
  /-- Texts that stand for names of commands. -/
  aliases : List (String × String) := []
  /-- Names whose texts are being read, with the length of what is left behind each. -/
  expanding : List (String × Nat) := []
  deriving Inhabited

/-- A step of reading. -/
abbrev Read := StateT Source (Except BadScript)

namespace Read

/-- Gives up. -/
def fail {α : Type} (reason : String) : Read α := do
  throw ⟨(← get).line, "Syntax error: " ++ reason⟩

/-- Gives up because of a token. -/
def refuse {α : Type} (token : Token) (expected : Option Token := none) : Read α :=
  let hint :=
    match expected with
    | some other => " (expecting " ++ other.message ++ ")"
    | none => ""
  fail (token.message ++ " unexpected" ++ hint)

/-- The source after a sign. -/
def passed (source : Source) (sign : Char) (rest : List Char) : Source :=
  if sign = '\n' then { source with rest, line := source.line + source.taken + 1, taken := 0 }
  else { source with rest }

/-- The text with lines joined at its start, and how many there were. -/
def joined : List Char → List Char × Nat
  | '\\' :: '\n' :: rest =>
    let (rest, count) := joined rest
    (rest, count + 1)
  | text => (text, 0)

/-- Joins lines at the start of the text. -/
def join : Read Unit :=
  modify fun source =>
    match source.rest with
    | '\\' :: '\n' :: rest =>
      let (rest, count) := joined rest
      { source with rest, line := source.line + count + 1 }
    | _ => source

/-- The next sign as it stands. -/
def nextRaw : Read (Option Char) :=
  modifyGet fun source =>
    match source.rest with
    | [] => (none, source)
    | c :: rest => (some c, passed source c rest)

/-- The next sign, which stays. -/
def peek : Read (Option Char) := do
  join
  return (← get).rest.head?

/-- The next sign. -/
def next : Read (Option Char) := do
  join
  nextRaw

/-- Takes the next sign if it is the given one. -/
def accept (sign : Char) : Read Bool := do
  if (← peek) = some sign then
    discard nextRaw
    return true
  else return false

/-- Takes the signs of a class. -/
def takeWhile (fuel : Nat) (inside : Char → Bool) (taken : List Char) : Read (List Char) :=
  match fuel with
  | 0 => return taken.reverse
  | fuel + 1 => do
    match ← peek with
    | some c =>
      if inside c then
        discard nextRaw
        takeWhile fuel inside (c :: taken)
      else return taken.reverse
    | none => return taken.reverse

/-- Skips blanks and a comment. -/
def blanks : Nat → Read Unit
  | 0 => return
  | fuel + 1 => do
    match ← peek with
    | some '#' => modify fun source => { source with rest := source.rest.dropWhile (· ≠ '\n') }
    | some c =>
      if c = ' ' || c = '\t' then
        discard nextRaw
        blanks fuel
    | none => return

/-- Has a token read again. -/
def push (token : Token) : Read Unit :=
  modify fun source => { source with pushed := some token }

/-- The lines of a text. -/
def splitLines : List Char → List (List Char)
  | [] => [[]]
  | c :: rest =>
    match splitLines rest with
    | [] => []
    | line :: others => if c = '\n' then [] :: line :: others else (c :: line) :: others

/-- The text of the lines up to one that is a given text, the lines after it, and how
many lines were taken. -/
def linesUpTo (mark : List Char) (cut : Bool) :
    List (List Char) → List Char × List (List Char) × Nat
  | [] => ([], [], 0)
  | line :: others =>
    let line := if cut then line.dropWhile (· = '\t') else line
    if line = mark then ([], others, 1)
    else if others.isEmpty then (line, [], 0)
    else
      let (body, after, count) := linesUpTo mark cut others
      (line ++ '\n' :: body, after, count + 1)

/-- The text of a document, which starts in the next line and ends before a mark. -/
def document (mark : List Char) (cut : Bool) : Read (List Char) :=
  modifyGet fun source =>
    let here := source.rest.takeWhile (· ≠ '\n')
    match source.rest.drop here.length with
    | [] => ([], source)
    | _ :: below =>
      let (body, after, count) := linesUpTo mark cut (splitLines below)
      let rest := here ++ '\n' :: List.intercalate ['\n'] after
      (body, { source with rest, taken := source.taken + count })

/-- Reads a text in place of the one that is left, and goes back to that. -/
def within {α : Type} (text : List Char) (read : Read α) : Read α := do
  let source ← get
  set { source with rest := text, pushed := none, taken := 0, expanding := [] }
  let value ← read
  modify fun inner => { source with aliases := inner.aliases }
  return value

end Read

end StyleTokens.Shell

/-
Patterns that are looked for in lines.

* `Search` — what is looked for, and what counts as a match;
* `Dialect.read` — patterns as they are written;
* `Search.find?` — the first match in a line, and of those that start there the longest;
* `Search.all` — all matches in a line that are not empty.

Design notes: a pattern without any operators is an expression too, made of single
signs.  Where matches have to be whole words, a shorter match may be one although the
longest is none.
-/
import StyleTokens.Pattern.Parser
import StyleTokens.Pattern.Search
import StyleTokens.Shell.Expression.Reader

namespace StyleTokens.Shell

/-- What is looked for. -/
inductive Sought
  | expression (expression : Expression)
  /-- A pattern that prefers one of its matches to others. -/
  | pattern (program : StyleTokens.Program)

/-- What is looked for, and what counts as a match. -/
structure Search where
  sought : List Sought := []
  /-- Whether letters count as the same in both cases. -/
  folded : Bool := false
  /-- Whether matches have to be whole words. -/
  words : Bool := false
  /-- Whether matches have to be whole lines. -/
  lines : Bool := false

/-- How patterns are written. -/
inductive Dialect
  | basic
  | extended
  /-- Without operators. -/
  | fixed
  | perl
  deriving DecidableEq, Repr, Inhabited

/-- A pattern as it was read, and what was passed over. -/
structure Found where
  sought : Sought
  ignored : List String := []

namespace Dialect

/-- A pattern that has to be a whole word or line. -/
def framed (words lines : Bool) (text : String) : String :=
  if lines then "^(?:" ++ text ++ ")$"
  else if words then "\\b(?:" ++ text ++ ")\\b"
  else text

/-- A pattern as it is written, or why it is none. -/
def read (dialect : Dialect) (folded words lines : Bool) (text : List Char) :
    Except String Found :=
  match dialect with
  | .fixed =>
    let signs := text.map Expression.single
    return { sought := .expression (signs.foldr Expression.followedBy .empty) }
  | .perl =>
    let whole := framed words lines (String.ofList text)
    match Pattern.parse ((if folded then "(?i)" else "") ++ whole) with
    | .ok pattern => return { sought := .pattern pattern.program }
    | .error flaw => throw flaw.message
  | _ => do
    let written ← Expression.read { extended := dialect = .extended, lenient := true } text
    if written.bareClass then throw "character class syntax is [[:space:]], not [:space:]"
    return { sought := .expression written.expression, ignored := written.ignored }

end Dialect

namespace Search

/-- Whether there are no signs of words at the borders of a match. -/
def isWord (subject : Expression.Subject) (start stop : Nat) : Bool :=
  !(subject.words start).1 && !(subject.words stop).2

/-- Where a match may end that starts at a place: the last such place. -/
def endAt? (search : Search) (subject : Expression.Subject) (start : Nat)
    (expression : Expression) : Option Nat :=
  let ends := (expression.ends subject expression.looksBack { place := start }).map (·.place)
  let longest := ends.foldl max start
  let isGood := fun (stop : Nat) =>
    if search.lines then start = 0 && stop = subject.signs.size
    else if search.words then isWord subject start stop && (start < stop || longest = start)
    else true
  (ends.filter isGood).foldl (fun best stop => some (max stop (best.getD stop))) none

/-- So many signs of a text as have these bytes. -/
def signsIn : (bytes : Nat) → List Char → Nat
  | 0, _ => 0
  | _, [] => 0
  | bytes, c :: rest => 1 + signsIn (bytes - c.utf8Size) rest

/-- The first match of what is looked for from a place on. -/
def findOne? (search : Search) (subject : Expression.Subject) (from_ : Nat) :
    Sought → Option (Nat × Nat)
  | .expression expression =>
    (List.range (subject.signs.size + 1 - from_)).findSome? fun n =>
      (endAt? search subject (from_ + n) expression).map fun stop => (from_ + n, stop)
  | .pattern program =>
    let rest := subject.signs.toList.drop from_
    let before := if from_ = 0 then none else subject.signs[from_ - 1]?
    (program.find? ⟨before, 0, rest⟩).map fun found =>
      let start := from_ + signsIn found.span.start rest
      (start, from_ + signsIn found.span.stop rest)

/-- The better of two matches: the one that starts first, and of those the longer. -/
def better (one : Nat × Nat) : Option (Nat × Nat) → Nat × Nat
  | none => one
  | some other => if other.1 < one.1 || (other.1 = one.1 && one.2 ≤ other.2) then other else one

/-- The first match from a place on: where it starts, and where it ends. -/
def find? (search : Search) (signs : Array Char) (from_ : Nat) : Option (Nat × Nat) :=
  let subject : Expression.Subject := { signs, folded := search.folded }
  search.sought.foldl (fun best sought =>
    match findOne? search subject from_ sought with
    | some found => some (better found best)
    | none => best) none

/-- All matches in a line that are not empty; `fuel` is above the number of its signs. -/
def allFrom (search : Search) (signs : Array Char) : (fuel from_ : Nat) → List (Nat × Nat)
  | 0, _ => []
  | fuel + 1, from_ =>
    match search.find? signs from_ with
    | none => []
    | some (start, stop) =>
      if start = stop then
        if start < signs.size then allFrom search signs fuel (start + 1) else []
      else (start, stop) :: allFrom search signs fuel stop

/-- All matches in a line that are not empty. -/
def all (search : Search) (signs : Array Char) : List (Nat × Nat) :=
  search.allFrom signs (signs.size + 1) 0

end Search

end StyleTokens.Shell

/-
Regular expressions of programs such as `grep` and `sed`.

* `Expression` — expressions as trees;
* `Subject` — a text that is searched;
* `Expression.ends` — all places where a match may end that starts at a place;
* `Expression.find?` — the first match in a text, and of those that start there the
  longest.

Design notes: a part of an expression leads from a place in the text to all places
where it may end, each once and with the groups by which it was reached first.  Only
after an expression that looks back at groups are places told apart by their groups.
-/
import StyleTokens.Shell.Wildcard
import Std.Data.HashSet

namespace StyleTokens.Shell

/-- A regular expression. -/
inductive Expression
  | empty
  /-- A sign that is a member, or one that is none. -/
  | sign (negated : Bool) (members : List Bracketed)
  | textStart
  | textEnd
  /-- The start of the text, or of a line where lines count. -/
  | lineStart
  | lineEnd
  | wordStart
  | wordEnd
  /-- The border of a word, or a place that is none. -/
  | border (negated : Bool)
  | group (number : Nat) (body : Expression)
  /-- The text of a group. -/
  | same (number : Nat)
  | sequence (first second : Expression)
  | either (first second : Expression)
  | repeated (least : Nat) (most : Option Nat) (body : Expression)

instance : Inhabited Expression := ⟨.empty⟩

namespace Expression

/-! Matching -/

/-- A place in a text, and the groups that were passed, the latest first. -/
structure Spot where
  place : Nat
  groups : List (Nat × Nat × Nat) := []
  deriving DecidableEq, Repr, Inhabited

/-- A text that is searched. -/
structure Subject where
  signs : Array Char
  /-- Whether letters count as the same in both cases. -/
  folded : Bool := false
  /-- Whether the ends of lines count as ends of the text. -/
  byLine : Bool := false
  deriving Inhabited

/-- Whether a sign belongs to words. -/
def isWordSign (c : Char) : Bool :=
  c.isAlphanum || c = '_'

/-- Whether a sign is a member. -/
def isMember (found : List Bracketed) (c : Char) : Bool :=
  found.any fun
    | .range low high => low ≤ c && c ≤ high
    | .named inside => inside c

/-- Whether a sign is accepted.  The end of a line is none of the others where lines
count. -/
def accepts (subject : Subject) (negated : Bool) (found : List Bracketed) (c : Char) : Bool :=
  let same := isMember found c ||
    (subject.folded && (isMember found c.toLower || isMember found c.toUpper))
  if negated && subject.byLine && c = '\n' then false else negated != same

/-- Whether there is a sign of a word before a place, and behind it. -/
def Subject.words (subject : Subject) (place : Nat) : Bool × Bool :=
  let at_ := fun (n : Nat) => (subject.signs[n]?.map isWordSign).getD false
  (0 < place && at_ (place - 1), at_ place)

/-- Spots without those at a place that was known before. -/
def newPlaces (known : Std.HashSet Nat) : List Spot → List Spot
  | [] => []
  | spot :: rest =>
    if known.contains spot.place then newPlaces known rest
    else spot :: newPlaces (known.insert spot.place) rest

/-- Spots without those that come a second time; they are the same if their places are,
unless groups are looked at. -/
def distinct (groups : Bool) : List Spot → List Spot
  | [] => []
  | [spot] => [spot]
  | spots => if groups then spots.eraseDups else newPlaces ∅ spots

/-- How many signs from a place on are accepted, of so many. -/
def runLength (accepted : Char → Bool) (signs : Array Char) : (limit : Nat) → (place : Nat) → Nat
  | 0, _ => 0
  | limit + 1, place =>
    match signs[place]? with
    | some c => if accepted c then 1 + runLength accepted signs limit (place + 1) else 0
    | none => 0

/-- The spots behind a run of single signs, the last one first. -/
def runEnds (least count : Nat) (spot : Spot) : List Spot :=
  (List.range (count + 1 - least)).map fun n => { spot with place := spot.place + (count - n) }

/-- The spots after a step was taken so often: the last ones first.  `before` holds those
that were found. -/
def iterate (groups : Bool) (step : Spot → List Spot) :
    (fuel : Nat) → (least : Nat) → (most : Option Nat) → (before now : List Spot) → List Spot
  | 0, _, _, before, now => now ++ before
  | fuel + 1, least, most, before, now =>
    let before := if least = 0 then now ++ before else before
    if most = some 0 || now.isEmpty then before
    else
      let next := distinct groups (now.flatMap step)
      let next :=
        if least = 0 then
          next.filter fun spot => !before.any fun other =>
            other.place = spot.place && (!groups || other.groups = spot.groups)
        else next
      iterate groups step fuel (least - 1) (most.map (· - 1)) before next

/-- Whether the text of a group is looked at again. -/
def looksBack : Expression → Bool
  | same _ => true
  | group _ body | repeated _ _ body => body.looksBack
  | sequence first second | either first second => first.looksBack || second.looksBack
  | _ => false

/-- The spots where an expression may end that starts at a spot, the preferred ones
first. -/
def ends (subject : Subject) (groups : Bool) : Expression → Spot → List Spot
  | empty, spot => [spot]
  | sign negated found, spot =>
    match subject.signs[spot.place]? with
    | some c =>
      if accepts subject negated found c then [{ spot with place := spot.place + 1 }] else []
    | none => []
  | textStart, spot => if spot.place = 0 then [spot] else []
  | textEnd, spot => if spot.place = subject.signs.size then [spot] else []
  | lineStart, spot =>
    let isStart := spot.place = 0 ||
      (subject.byLine && subject.signs[spot.place - 1]? = some '\n')
    if isStart then [spot] else []
  | lineEnd, spot =>
    let isEnd := spot.place = subject.signs.size ||
      (subject.byLine && subject.signs[spot.place]? = some '\n')
    if isEnd then [spot] else []
  | wordStart, spot => if subject.words spot.place = (false, true) then [spot] else []
  | wordEnd, spot => if subject.words spot.place = (true, false) then [spot] else []
  | border negated, spot =>
    let (before, behind) := subject.words spot.place
    if negated != (before != behind) then [spot] else []
  | group number body, spot =>
    (ends subject groups body spot).map fun other =>
      { other with groups := (number, spot.place, other.place) :: other.groups }
  | same number, spot =>
    match spot.groups.lookup number with
    | none => []
    | some (low, high) =>
      let fold := fun (c : Char) => if subject.folded then c.toLower else c
      let text := (subject.signs.extract low high).map fold
      let next := spot.place + text.size
      if (subject.signs.extract spot.place next).map fold = text then
        [{ spot with place := next }]
      else []
  | sequence first second, spot =>
    distinct groups ((ends subject groups first spot).flatMap (ends subject groups second))
  | either first second, spot =>
    distinct groups (ends subject groups first spot ++ ends subject groups second spot)
  | repeated least most (sign negated found), spot =>
    let limit := most.getD (subject.signs.size - spot.place)
    let count := runLength (accepts subject negated found) subject.signs limit spot.place
    runEnds least count spot
  | repeated least most body, spot =>
    iterate groups (ends subject groups body) (least + subject.signs.size + 2) least most [] [spot]

/-- The longest of the matches that start at a place. -/
def matchAt? (expression : Expression) (subject : Subject) (place : Nat) : Option Spot :=
  (expression.ends subject expression.looksBack { place }).foldl (fun best spot =>
    match best with
    | some other => if other.place < spot.place then some spot else best
    | none => some spot) none

/-- The first match from a place on: where it starts, and where it ends. -/
def find? (expression : Expression) (subject : Subject) (from_ : Nat) : Option (Nat × Spot) :=
  (List.range (subject.signs.size + 1 - from_)).findSome? fun n =>
    (expression.matchAt? subject (from_ + n)).map fun spot => (from_ + n, spot)

end Expression

end StyleTokens.Shell

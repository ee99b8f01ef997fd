/-
Searching a text for a pattern.

A search reads the text once from left to right and carries a list of threads,
each one way in which the pattern may still match; the order of the list is the
order of preference.  Of all matches the one that starts first wins, and among
those the one that the pattern prefers.

* `settle` — brings the threads of one place to where each waits for a
  character, in order of preference, and cuts the list at the first that is
  done;
* `Program.find?` — the first match from a place on;
* `Program.occurrences` — all matches, none overlapping the one before; an empty
  match right at the end of the match before does not count.

Design notes: `settle` passes each label once per place, so it ends after a
number of steps that the size of the program and the number of threads bound;
this bound is its fuel.  Offsets count bytes.
-/
import Std.Data.HashSet
import StyleTokens.Pattern.Program
import StyleTokens.Text.Bytes

namespace StyleTokens

/-- A match and what its groups recorded, the latest record first. -/
structure Match where
  span : Span
  captures : List (String × Span)
  deriving DecidableEq, Repr, Inhabited

/-- What a group recorded last. -/
def Match.capture? (found : Match) (name : String) : Option Span :=
  found.captures.lookup name

/-- A place in a text: the character before it, its offset and what follows. -/
structure Cursor where
  before : Option Char
  offset : Nat
  rest : List Char
  deriving Repr

namespace Cursor

/-- The start of a text. -/
def start (text : List Char) : Cursor :=
  ⟨none, 0, text⟩

/-- The place after the next character. -/
def next? (place : Cursor) : Option Cursor :=
  match place.rest with
  | [] => none
  | c :: rest => some ⟨some c, place.offset + c.utf8Size, rest⟩

/-- The place `bytes` bytes further on in `rest`. -/
def skipIn (before : Option Char) (offset : Nat) : Nat → List Char → Cursor
  | _, [] => ⟨before, offset, []⟩
  | bytes, c :: rest =>
    if bytes = 0 then ⟨before, offset, c :: rest⟩
    else skipIn (some c) (offset + c.utf8Size) (bytes - c.utf8Size) rest

/-- The place `bytes` bytes further on. -/
def skip (place : Cursor) (bytes : Nat) : Cursor :=
  skipIn place.before place.offset bytes place.rest

end Cursor

/-- What a thread still has to do. -/
inductive Goal
  | run (node : Node)
  /-- Records the text from `start` on under a name. -/
  | close (name : String) (start : Nat)
  deriving Repr

/-- One way to match, begun at `start`. -/
structure Thread where
  start : Nat
  captures : List (String × Span)
  goals : List Goal
  deriving Repr

namespace Thread

/-- The thread that begins at a place. -/
def begin (program : Program) (offset : Nat) : Thread :=
  ⟨offset, [], [.run program.root]⟩

/-- The thread with other goals. -/
def withGoals (thread : Thread) (goals : List Goal) : Thread :=
  { thread with goals }

/-- The thread with one more record. -/
def record (thread : Thread) (name : String) (span : Span) : Thread :=
  { thread with captures := (name, span) :: thread.captures }

/-- The thread after a character that it waits for. -/
def consume? (c : Char) (thread : Thread) : Option Thread :=
  match thread.goals with
  | .run (.one set) :: goals => if set.contains c then some (thread.withGoals goals) else none
  | _ => none

end Thread

/-- The threads that wait for a character, and the match of the first thread
that is done; threads of lower preference than that one are dropped.  `passed`
holds the labels met at this place, `waiting` the threads that wait already, the
last one first. -/
def settle (before after : Option Char) (offset : Nat) :
    Nat → Std.HashSet Nat → (waiting threads : List Thread) → List Thread × Option Match
  | 0, _, waiting, _ => (waiting.reverse, none)
  | _ + 1, _, waiting, [] => (waiting.reverse, none)
  | fuel + 1, passed, waiting, thread :: others =>
    match thread.goals with
    | [] => (waiting.reverse, some ⟨⟨thread.start, offset⟩, thread.captures⟩)
    | .close name start :: goals =>
      settle before after offset fuel passed waiting
        ((thread.withGoals goals).record name ⟨start, offset⟩ :: others)
    | .run node :: goals =>
      match node with
      | .empty => settle before after offset fuel passed waiting (thread.withGoals goals :: others)
      | .one _ => settle before after offset fuel passed (thread :: waiting) others
      | .assert condition =>
        settle before after offset fuel passed waiting
          (if condition.holds before after then thread.withGoals goals :: others else others)
      | .group name body =>
        settle before after offset fuel passed waiting
          (thread.withGoals (.run body :: .close name offset :: goals) :: others)
      | .seq a b =>
        settle before after offset fuel passed waiting
          (thread.withGoals (.run a :: .run b :: goals) :: others)
      | .choice label a b =>
        if passed.contains label then settle before after offset fuel passed waiting others
        else
          settle before after offset fuel (passed.insert label) waiting
            (thread.withGoals (.run a :: goals) :: thread.withGoals (.run b :: goals) :: others)
      | .again label greedy body =>
        if passed.contains label then settle before after offset fuel passed waiting others
        else
          let stay := thread.withGoals (.run body :: .run (.again label greedy body) :: goals)
          let leave := thread.withGoals goals
          settle before after offset fuel (passed.insert label) waiting
            (if greedy then stay :: leave :: others else leave :: stay :: others)
      | .atLeastOnce label greedy body =>
        settle before after offset fuel passed waiting
          (thread.withGoals (.run body :: .run (.again label greedy body) :: goals) :: others)

namespace Program

/-- Steps that suffice to settle a number of threads. -/
def effort (program : Program) (threads : Nat) : Nat :=
  (threads + 2 * program.labels + 1) * (2 * program.size + 2)

/-- The threads that wait at a place, and the match known after it.  A new
thread begins there as long as there is no match. -/
def atPlace (program : Program) (found : Option Match) (threads : List Thread)
    (before after : Option Char) (offset : Nat) : List Thread × Option Match :=
  let threads := if found.isNone then threads ++ [Thread.begin program offset] else threads
  let (waiting, done) := settle before after offset (program.effort threads.length) ∅ [] threads
  (waiting, done <|> found)

/-- The search from a place on, with the threads that reached it and the match
known so far. -/
def advance (program : Program) (found : Option Match) (threads : List Thread)
    (before : Option Char) (offset : Nat) : List Char → Option Match
  | [] => (program.atPlace found threads before none offset).2
  | c :: rest =>
    match program.atPlace found threads before (some c) offset with
    | ([], some found) => some found
    | (waiting, found) =>
      advance program found (waiting.filterMap (Thread.consume? c)) (some c)
        (offset + c.utf8Size) rest

/-- The first match that starts at a place or later. -/
def find? (program : Program) (place : Cursor) : Option Match :=
  program.advance none [] place.before place.offset place.rest

/-- The matches from a place on, given the end of the match before. -/
def occurrencesFrom (program : Program) : Nat → Option Nat → Cursor → List Match
  | 0, _, _ => []
  | fuel + 1, last, place =>
    match program.find? place with
    | none => []
    | some found =>
      if found.span.length = 0 && last == some found.span.stop then
        match place.next? with
        | none => []
        | some place => occurrencesFrom program fuel last place
      else
        found :: occurrencesFrom program fuel (some found.span.stop)
          (place.skip (found.span.stop - place.offset))

/-- The matches in a text, from left to right.  Between two steps forward there
is at most one match and one empty match that does not count. -/
def occurrences (program : Program) (text : List Char) : List Match :=
  program.occurrencesFrom (2 * text.length + 2) none (.start text)

/-- Whether the pattern occurs in a text. -/
def occursIn (program : Program) (text : List Char) : Bool :=
  (program.find? (.start text)).isSome

end Program

end StyleTokens

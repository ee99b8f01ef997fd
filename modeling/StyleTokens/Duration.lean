/-
Lengths of time as they are typed.

A number of seconds, or a number and one of the units `ms`, `s` and `m`.

* `Duration.parse` — the length of time that a text denotes; numbers of seconds
  and of milliseconds fit 64 bits.
-/
import StyleTokens.Count
import StyleTokens.Fault

namespace StyleTokens

/-- A length of time. -/
structure Duration where
  milliseconds : Nat
  deriving DecidableEq, Repr, Inhabited

namespace Duration

/-- A number of seconds. -/
def ofSeconds (n : Nat) : Duration :=
  ⟨n * 1000⟩

/-- The whole seconds. -/
def seconds (duration : Duration) : Nat :=
  duration.milliseconds / 1000

/-- The number that decimal digits denote. -/
def decimal (digits : List Char) : Nat :=
  digits.foldl (fun n c => n * 10 + (c.toNat - 48)) 0

/-- The length of time of a number of units. -/
def ofUnit? (n : Nat) (unit : List Char) : Option Duration :=
  if unit = [] || unit = ['s'] then some (ofSeconds n)
  else if unit = ['m', 's'] then some ⟨n⟩
  else if unit = ['m'] && n * 60 < Count.bound then some (ofSeconds (n * 60))
  else none

/-- The length of time that a text denotes. -/
def parse (text : String) : Except Fault Duration :=
  let trimmed := Text.trim text.toList
  let digits := trimmed.takeWhile Char.isDigit
  let unit := Text.trim (trimmed.dropWhile Char.isDigit)
  let n := decimal digits
  match if digits.isEmpty || n ≥ Count.bound then none else ofUnit? n unit with
  | some duration => return duration
  | none => throw (.invalidArgument (.duration text))

end Duration

end StyleTokens

/-
Times of day as they are written in reports.

* `Calendar.date` — the year, month and day of a number of days after the first of
  January 1970;
* `Calendar.stamp` — the text of a number of seconds after the start of that day,
  in UTC.

Design notes: years are counted from March, so that the day that only some years
have is the last one; 400 years always have the same number of days.
-/
namespace StyleTokens.Calendar

/-- Days from the first of March of the year 0 to the first of January 1970. -/
def offset : Nat := 719468

/-- Days of 400 years. -/
def cycle : Nat := 146097

/-- The year, month and day of a number of days. -/
def date (days : Nat) : Nat × Nat × Nat :=
  let days := days + offset
  let day := days % cycle
  let year := (day - day / 1460 + day / 36524 - day / 146096) / 365
  let dayOfYear := day - (365 * year + year / 4 - year / 100)
  let march := (5 * dayOfYear + 2) / 153
  let month := if march < 10 then march + 3 else march - 9
  let years := days / cycle * 400 + year + if month ≤ 2 then 1 else 0
  (years, month, dayOfYear - (153 * march + 2) / 5 + 1)

/-- A number with zeros in front, up to a width. -/
def padded (width n : Nat) : String :=
  let digits := toString n
  String.ofList (List.replicate (width - digits.length) '0') ++ digits

/-- The text of a number of seconds. -/
def stamp (seconds : Nat) : String :=
  let (year, month, day) := date (seconds / 86400)
  let clock := seconds % 86400
  padded 4 year ++ "-" ++ padded 2 month ++ "-" ++ padded 2 day ++ "T" ++
    padded 2 (clock / 3600) ++ ":" ++ padded 2 (clock / 60 % 60) ++ ":" ++
    padded 2 (clock % 60) ++ "Z"

end StyleTokens.Calendar

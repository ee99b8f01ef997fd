/-
Programs that order lines, and those that need ordered lines.

* `Tool.sort` — lines in order, by keys;
* `Tool.uniq`, `Tool.comm`, `Tool.join` — neighbours and partners of lines.
-/
import StyleTokens.Shell.Tool.Text

namespace StyleTokens.Shell.Tool

/-! Orders -/

/-- How two texts compare. -/
inductive Comparison
  | plain
  | numeric
  /-- Numbers with exponents. -/
  | general
  /-- Numbers with the suffixes of sizes. -/
  | sizes
  | months
  | versions
  deriving DecidableEq, Repr, Inhabited

/-- How a key is compared. -/
structure KeyOrder where
  comparison : Comparison := .plain
  /-- Whether blanks at the start, and before the end, do not count. -/
  skipsStart : Bool := false
  skipsEnd : Bool := false
  /-- Whether only letters, digits and blanks count. -/
  dictionary : Bool := false
  folded : Bool := false
  /-- Whether only signs that can be shown count. -/
  shown : Bool := false
  reversed : Bool := false
  deriving DecidableEq, Repr, Inhabited

/-- A part of lines by which they are ordered. -/
structure Key where
  field : Nat
  sign : Nat := 0
  /-- The last field and the signs of it that count; without signs it counts whole. -/
  last : Option (Nat × Nat) := none
  order : KeyOrder := {}
  deriving Repr, Inhabited

/-- Whether a sign separates fields. -/
def isFieldBlank (c : Char) : Bool :=
  c = ' ' || c = '\t' || c = '\n'

/-- A text behind so many fields. -/
def behindFields (separator : Option Char) : Nat → List Char → List Char
  | 0, text => text
  | count + 1, text =>
    match separator with
    | some c => behindFields separator count ((text.dropWhile (· ≠ c)).drop 1)
    | none => behindFields separator count
        ((text.dropWhile isFieldBlank).dropWhile fun c => !isFieldBlank c)

/-- What is left of a text behind the last field of a key. -/
def behindKey (separator : Option Char) (order : KeyOrder) (field signs : Nat) (text : List Char) :
    List Char :=
  if signs = 0 then
    match separator with
    | none => behindFields none (field + 1) text
    | some c =>
      let before := behindFields separator field text
      before.dropWhile (· ≠ c)
  else
    let start := behindFields separator field text
    (if order.skipsEnd then start.dropWhile isFieldBlank else start).drop signs

/-- The part of a line that a key is. -/
def Key.part (separator : Option Char) (key : Key) (line : List Char) : List Char :=
  let start := behindFields separator key.field line
  let start := if key.order.skipsStart then start.dropWhile isFieldBlank else start
  let start := start.drop key.sign
  match key.last with
  | none => start
  | some (field, signs) =>
    start.take (start.length - (behindKey separator key.order field signs line).length)

/-- The number at the start of a text, as digits with nine places, and what follows. -/
def leadingNumber (text : List Char) : Int × List Char :=
  let body := text.dropWhile isFieldBlank
  let (negative, body) :=
    match body with
    | '-' :: rest => (true, rest)
    | rest => (false, rest)
  let whole := body.takeWhile Char.isDigit
  let rest := body.drop whole.length
  let part :=
    match rest with
    | '.' :: after => after.takeWhile Char.isDigit
    | _ => []
  let after := if part.isEmpty then rest else rest.drop (part.length + 1)
  let digits := whole ++ (part ++ List.replicate 20 '0').take 20
  let n : Int := (digits.foldl (fun n c => n * 10 + (c.toNat - 48)) 0 : Nat)
  (if negative then -n else n, after)

/-- Names of months by their first letters. -/
def monthNames : List String :=
  ["JAN", "FEB", "MAR", "APR", "MAY", "JUN", "JUL", "AUG", "SEP", "OCT", "NOV", "DEC"]

/-- The number of a month; other texts come first. -/
def monthOf (text : List Char) : Nat :=
  let name := String.ofList (((text.dropWhile isFieldBlank).take 3).map Char.toUpper)
  (monthNames.idxOf? name).elim 0 (· + 1)

/-- Where a sign stands in versions: a tilde before the end, letters before others. -/
def versionRank : Option Char → Int
  | none => 0
  | some c =>
    if c.isDigit then 0 else if c.isAlpha then c.toNat else if c = '~' then -1 else c.toNat + 256

/-- The order of two versions, parts of signs and of digits in turn. -/
def compareVersions : (fuel : Nat) → List Char → List Char → Ordering
  | 0, _, _ => .eq
  | fuel + 1, first, second =>
    if first.isEmpty && second.isEmpty then .eq
    else
      let isSign := fun (c : Option Char) => c.any (!·.isDigit)
      if isSign first.head? || isSign second.head? then
        match compare (versionRank first.head?) (versionRank second.head?) with
        | .eq => compareVersions fuel (first.drop 1) (second.drop 1)
        | other => other
      else
        let number := fun (text : List Char) => text.takeWhile Char.isDigit
        let value := fun (digits : List Char) => digits.foldl (fun n c => n * 10 + (c.toNat - 48)) 0
        match compare (value (number first)) (value (number second)) with
        | .eq => compareVersions fuel (first.drop (number first).length)
            (second.drop (number second).length)
        | other => other

/-- The order of two texts, byte by byte. -/
def compareTexts : List Char → List Char → Ordering
  | [], [] => .eq
  | [], _ => .lt
  | _, [] => .gt
  | c :: first, d :: second => if c = d then compareTexts first second else compare c.toNat d.toNat

/-- The greatest suffix of sizes first. -/
def sizeRank (text : List Char) : Int :=
  let (n, rest) := leadingNumber text
  let power : Int := ((rest.head?.bind fun c => Number.powers.lookup c).getD 0 : Nat)
  if n = 0 then 0 else if n < 0 then -(power + 1) else power + 1

/-- The real number at the start of a text; none comes before all numbers. -/
def generalRank (text : List Char) : Int × Int :=
  match Real.read? text with
  | none => (0, 0)
  | some reading =>
    match reading.value with
    | .undefined _ => (1, 0)
    | .infinite true => (2, 0)
    | .infinite false => (4, 0)
    | .finite negative number =>
      let size : Int := (number.mantissa <<< (number.exponent + 1074).toNat : Nat)
      (3, if negative then -size else size)

/-- The order of two keys. -/
def KeyOrder.compare (order : KeyOrder) (first second : List Char) : Ordering :=
  let counts := fun (c : Char) =>
    (!order.dictionary || c.isAlphanum || isFieldBlank c) && (!order.shown || Naming.isShown c)
  let seen := fun (text : List Char) =>
    (text.filter counts).map fun c => if order.folded then c.toUpper else c
  let found :=
    match order.comparison with
    | .plain => compareTexts (seen first) (seen second)
    | .numeric => Ord.compare (leadingNumber first).1 (leadingNumber second).1
    | .general =>
      let a := generalRank first
      let b := generalRank second
      (Ord.compare a.1 b.1).then (Ord.compare a.2 b.2)
    | .sizes =>
      (Ord.compare (sizeRank first) (sizeRank second)).then
        (Ord.compare (leadingNumber first).1 (leadingNumber second).1)
    | .months => Ord.compare (monthOf first) (monthOf second)
    | .versions => compareVersions (first.length + second.length + 1) first second
  if order.reversed then found.swap else found

/-- How lines are sorted. -/
structure Sorting where
  order : KeyOrder := {}
  keys : List Key := []
  separator : Option Char := none
  stable : Bool := false
  unique : Bool := false
  /-- Whether the order is only checked, and whether that is told. -/
  checks : Option Bool := none
  goal : Option String := none
  ended : Char := '\n'
  deriving Inhabited

/-- The order of two lines by the keys alone. -/
def Sorting.compareKeys (sorting : Sorting) (first second : List Char) : Ordering :=
  if sorting.keys.isEmpty then
    let order := sorting.order
    let cut := fun (line : List Char) => if order.skipsStart then line.dropWhile isFieldBlank else line
    order.compare (cut first) (cut second)
  else
    sorting.keys.foldl (fun found key =>
      found.then (key.order.compare (key.part sorting.separator first)
        (key.part sorting.separator second))) .eq

/-- Whether lines that are equal by their keys are told apart at all. -/
def Sorting.hasLastResort (sorting : Sorting) : Bool :=
  !sorting.stable && !sorting.unique

/-- The order of two lines. -/
def Sorting.compare (sorting : Sorting) (first second : List Char) : Ordering :=
  let found := sorting.compareKeys first second
  if found = .eq && sorting.hasLastResort then
    let found := compareTexts first second
    if sorting.order.reversed then found.swap else found
  else found

/-- An order with one more letter. -/
def KeyOrder.withLetter (order : KeyOrder) (start end_ : Bool) : Char → Option KeyOrder
  | 'b' => some { order with
      skipsStart := order.skipsStart || start, skipsEnd := order.skipsEnd || end_ }
  | 'd' => some { order with dictionary := true }
  | 'f' => some { order with folded := true }
  | 'g' => some { order with comparison := .general }
  | 'h' => some { order with comparison := .sizes }
  | 'i' => some { order with shown := true }
  | 'M' => some { order with comparison := .months }
  | 'n' => some { order with comparison := .numeric }
  | 'r' => some { order with reversed := true }
  | 'V' => some { order with comparison := .versions }
  | _ => none

/-- The key that a text describes, or why it does not. -/
def readKey (text : List Char) : Except String Key := do
  let whole := String.ofList text
  let bad := fun (reason : String) (part : List Char) =>
    reason ++ ": invalid count at start of " ++ Naming.marked (String.ofList part)
  let zero := fun (what : String) =>
    what ++ " is zero: invalid field specification " ++ Naming.marked whole
  let number := fun (reason : String) (part : List Char) => do
    let digits := part.takeWhile Char.isDigit
    match Number.natural? digits with
    | none => throw (bad reason part)
    | some n => return (n, part.drop digits.length)
  let letters := fun (order : KeyOrder) (start end_ : Bool) (part : List Char) => do
    let found := part.takeWhile Char.isAlpha
    let order ← found.foldlM (fun (order : KeyOrder) c =>
      match order.withLetter start end_ c with
      | some order => pure order
      | none => throw ("stray character in field spec: invalid field specification " ++
          Naming.marked whole)) order
    return (order, part.drop found.length)
  let (field, rest) ← number "invalid number at field start" text
  if field = 0 then throw (zero "field number")
  let (sign, rest) ←
    match rest with
    | '.' :: after => number "invalid number after '.'" after
    | _ => pure (1, rest)
  if sign = 0 then throw (zero "character offset")
  let (order, rest) ← letters {} true false rest
  match rest with
  | [] => return { field := field - 1, sign := sign - 1, order }
  | ',' :: after =>
    let (last, rest) ← number "invalid number after ','" after
    if last = 0 then throw (zero "field number")
    let (signs, rest) ←
      match rest with
      | '.' :: after => number "invalid number after '.'" after
      | _ => pure (0, rest)
    let (order, rest) ← letters order false true rest
    if !rest.isEmpty then
      throw ("stray character in field spec: invalid field specification " ++ Naming.marked whole)
    return { field := field - 1, sign := sign - 1, last := some (last - 1, signs), order }
  | _ =>
    throw ("stray character in field spec: invalid field specification " ++ Naming.marked whole)

/-- One more option of `sort`. -/
def sortStep (sorting : Sorting) (name value : String) : Tool Sorting := do
  match name with
  | "k" =>
    match readKey value.toList with
    | .ok key => return { sorting with keys := sorting.keys ++ [key] }
    | .error reason => fail 2 reason
  | "t" =>
    match value.toList with
    | [] => fail 2 "empty tab"
    | [c] => return { sorting with separator := some c }
    | ['\\', '0'] => return { sorting with separator := some (Char.ofNat 0) }
    | _ => fail 2 ("multi-character tab " ++ Naming.marked value)
  | "s" => return { sorting with stable := true }
  | "u" => return { sorting with unique := true }
  | "c" => return { sorting with checks := some (value ≠ "quiet" && value ≠ "silent") }
  | "C" => return { sorting with checks := some false }
  | "o" => return { sorting with goal := some value }
  | "z" => return { sorting with ended := Char.ofNat 0 }
  | _ =>
    match name.toList with
    | [c] => return { sorting with order := (sorting.order.withLetter true true c).getD sorting.order }
    | _ => return sorting

/-- Lines of which no two are equal by their keys. -/
def Sorting.distinct (sorting : Sorting) : List (List Char) → List (List Char)
  | [] => []
  | line :: rest =>
    line :: match distinct sorting rest with
      | next :: others => if sorting.compareKeys line next = .eq then others else next :: others
      | [] => []

/-- Writes lines in order. -/
def sort : Tool Nat := do
  let table : OptionTable := {
    letters := "bdfghik:mMno:rst:T:S:uVzcC"
    names := [
      ("ignore-leading-blanks", .nothing, "b"), ("dictionary-order", .nothing, "d"),
      ("ignore-case", .nothing, "f"), ("general-numeric-sort", .nothing, "g"),
      ("human-numeric-sort", .nothing, "h"), ("ignore-nonprinting", .nothing, "i"),
      ("key", .value, "k"), ("merge", .nothing, "m"), ("month-sort", .nothing, "M"),
      ("numeric-sort", .nothing, "n"), ("output", .value, "o"), ("reverse", .nothing, "r"),
      ("stable", .nothing, "s"), ("field-separator", .value, "t"), ("unique", .nothing, "u"),
      ("version-sort", .nothing, "V"), ("check", .optional, "c"), ("zero-terminated", .nothing, "z")] }
  let (sorting, operands) ← options table 2 ({} : Sorting) sortStep
  let inherit := fun (key : Key) =>
    if key.order = {} then { key with order := sorting.order } else key
  let sorting := { sorting with keys := sorting.keys.map inherit }
  let operands := orInput operands
  if sorting.checks.isSome then
    if let extra :: _ := operands.drop 1 then
      misuse 2 ("extra operand " ++ Naming.marked extra ++ " not allowed with -c")
  for operand in operands do
    if operand ≠ "-" then
      match ← openInput operand with
      | .ok stream => closeInput stream
      | .error cause => fail 2 ("cannot read: " ++ refusal operand cause)
  let lines ← operands.foldlM (fun lines operand => do
    match ← contents operand with
    | .ok data =>
      let all := (Octets.ofBytes data).splitOn sorting.ended
      return lines ++ (if all.getLast? = some [] then all.dropLast else all)
    | .error cause => fail 2 ("read failed: " ++ refusal operand cause)) ([] : List (List Char))
  match sorting.checks with
  | some tells =>
    let pairs := (lines.zip (lines.drop 1)).zip (List.range lines.length)
    let wrong := pairs.find? fun ((first, second), _) =>
      let found := sorting.compare first second
      found = .gt || (sorting.unique && found = .eq)
    match wrong with
    | none => return 0
    | some ((_, line), n) =>
      if tells then
        let name := (operands.head?).getD "-"
        warn (Naming.needed name ++ ":" ++ toString (n + 2) ++ ": disorder: " ++ String.ofList line)
      return 1
  | none =>
    let sorted := lines.mergeSort fun a b => sorting.compare a b ≠ .gt
    let sorted := if sorting.unique then sorting.distinct sorted else sorted
    let text := (sorted.map (· ++ [sorting.ended])).flatten
    match sorting.goal with
    | none =>
      put text
      return 0
    | some goal =>
      match ← openFile goal { writes := true, creates := true, empties := true } with
      | .error cause => fail 2 ("open failed: " ++ refusal goal cause)
      | .ok stream =>
        discard (act (Act.write (← read).id stream (Octets.toBytes text)))
        return 0

/-! Neighbours -/

/-- How `uniq` compares and shows lines. -/
structure Uniting where
  counts : Bool := false
  /-- Whether only lines that are repeated are shown, or all of them, or only those that
  are not. -/
  repeated : Bool := false
  all : Bool := false
  single : Bool := false
  folded : Bool := false
  fields : Nat := 0
  signs : Nat := 0
  width : Option Nat := none
  ended : Char := '\n'
  deriving Inhabited

/-- The part of a line that is compared. -/
def Uniting.part (uniting : Uniting) (line : List Char) : List Char :=
  let rec skip : Nat → List Char → List Char
    | 0, text => text
    | n + 1, text => skip n ((text.dropWhile isFieldBlank).dropWhile fun c => !isFieldBlank c)
  let text := (skip uniting.fields line).drop uniting.signs
  let text := text.take (uniting.width.getD text.length)
  if uniting.folded then text.map Char.toLower else text

/-- Neighbours that are equal, together. -/
def Uniting.groups (uniting : Uniting) : List (List Char) → List (List (List Char))
  | [] => []
  | line :: rest =>
    match groups uniting rest with
    | (next :: others) :: more =>
      if uniting.part line = uniting.part next then (line :: next :: others) :: more
      else [line] :: (next :: others) :: more
    | found => [line] :: found

/-- One more option of `uniq`. -/
def uniqStep (uniting : Uniting) (name value : String) : Tool Uniting := do
  let number := fun (what : String) => do
    match Number.natural? value.toList with
    | some n => return n
    | none => fail 1 (value ++ ": invalid number of " ++ what)
  match name with
  | "c" => return { uniting with counts := true }
  | "d" => return { uniting with repeated := true }
  | "D" => return { uniting with repeated := true, all := true }
  | "u" => return { uniting with single := true }
  | "i" => return { uniting with folded := true }
  | "f" => return { uniting with fields := ← number "fields to skip" }
  | "s" => return { uniting with signs := ← number "bytes to skip" }
  | "w" => return { uniting with width := some (← number "bytes to compare") }
  | "z" => return { uniting with ended := Char.ofNat 0 }
  | _ => return uniting

/-- Writes neighbours that are equal once. -/
def uniq : Tool Nat := do
  let table : OptionTable := {
    letters := "cdDuif:s:w:z"
    names := [
      ("count", .nothing, "c"), ("repeated", .nothing, "d"), ("unique", .nothing, "u"),
      ("ignore-case", .nothing, "i"), ("skip-fields", .value, "f"), ("skip-chars", .value, "s"),
      ("check-chars", .value, "w"), ("zero-terminated", .nothing, "z"),
      ("all-repeated", .optional, "D")] }
  let (uniting, operands) ← options table 1 ({} : Uniting) uniqStep
  if let some extra := operands[2]? then misuse 1 ("extra operand " ++ Naming.marked extra)
  if uniting.counts && uniting.all then
    misuse 1 "printing all duplicated lines and repeat counts is meaningless"
  let source := (operands[0]?).getD "-"
  match ← openInput source with
  | .error cause => fail 1 (refusal source cause)
  | .ok stream =>
    match operands[1]? with
    | some goal =>
      if goal ≠ "-" then
        match ← openFile goal { writes := true, creates := true, empties := true } with
        | .error cause => fail 1 (refusal goal cause)
        | .ok number =>
          let id := (← read).id
          discard (act (Act.duplicate id number 1))
    | none => pure ()
    match ← readAll stream with
    | .error cause => fail 1 ("error reading " ++ Naming.always source ++ ": " ++ reasonOf cause)
    | .ok data =>
      let all := (Octets.ofBytes data).splitOn uniting.ended
      let lines := if all.getLast? = some [] then all.dropLast else all
      for group in uniting.groups lines do
        let isRepeated := 1 < group.length
        let shows := (isRepeated || !uniting.repeated) && !(uniting.single && isRepeated)
        if shows then
          let shown := if uniting.all then group else group.take 1
          for line in shown do
            let label := if uniting.counts then inWidth 7 (toString group.length) ++ " " else ""
            put (label.toList ++ line ++ [uniting.ended])
      return 0

/-! Partners -/

/-- Whether lines are in order. -/
def areOrdered : List (List Char) → Bool
  | first :: second :: rest => compareTexts first second ≠ .gt && areOrdered (second :: rest)
  | _ => true

/-- Lines of two files side by side: those of one alone, and those of both. -/
def paired : (fuel : Nat) → List (List Char) → List (List Char) → List (Ordering × List Char)
  | 0, _, _ => []
  | _, [], second => second.map (Ordering.gt, ·)
  | _, first, [] => first.map (Ordering.lt, ·)
  | fuel + 1, a :: first, b :: second =>
    match compareTexts a b with
    | .eq => (.eq, a) :: paired fuel first second
    | .lt => (.lt, a) :: paired fuel first (b :: second)
    | .gt => (.gt, b) :: paired fuel (a :: first) second

/-- The two operands of a program, or a complaint. -/
def twoOperands (operands : List String) : Tool (String × String) :=
  match operands with
  | [first, second] => return (first, second)
  | [] => misuse 1 "missing operand"
  | [only] => misuse 1 ("missing operand after " ++ Naming.marked only)
  | _ :: _ :: extra :: _ => misuse 1 ("extra operand " ++ Naming.marked extra)

/-- The lines of an operand. -/
def linesAt (operand : String) : Tool (List (List Char)) := do
  match ← contents operand with
  | .ok data => return (linesOf (Octets.ofBytes data)).1
  | .error cause => fail 1 (refusal operand cause)

/-- Writes lines of two files in three columns. -/
def comm : Tool Nat := do
  let line ← line {
    letters := "123z"
    names := [
      ("check-order", .nothing, "check"), ("nocheck-order", .nothing, "nocheck"),
      ("output-delimiter", .value, "o"), ("total", .nothing, "total")] } 1
  let (one, two) ← twoOperands line.operands
  let first ← linesAt one
  let second ← linesAt two
  let rows := paired (first.length + second.length + 1) first second
  let tab := ((line.last? "o").getD "\t").toList
  for (side, text) in rows do
    let (name, before) :=
      match side with
      | .lt => ("1", ([] : List String))
      | .gt => ("2", ["1"])
      | .eq => ("3", ["1", "2"])
    if !line.has name then
      put (((before.filter (!line.has ·)).flatMap fun _ => tab) ++ text ++ ['\n'])
  let isAlone := rows.any (·.1 ≠ .eq)
  if line.has "nocheck" || !isAlone then return 0
  let wrong := [(first, "1"), (second, "2")].filter fun (lines, _) => !areOrdered lines
  for (_, name) in wrong do
    warn ("file " ++ name ++ " is not in sorted order")
  if wrong.isEmpty then return 0
  warn "input is not in sorted order"
  return 1

/-- The fields of a line. -/
def fieldsOf (separator : Option Char) (line : List Char) : List (List Char) :=
  match separator with
  | some c => line.splitOn c
  | none => (line.splitOnP isFieldBlank).filter (!·.isEmpty)

/-- Writes pairs of lines that have a field in common. -/
def join : Tool Nat := do
  let line ← line {
    letters := "1:2:j:t:a:v:e:o:iz"
    names := [("ignore-case", .nothing, "i"), ("nocheck-order", .nothing, "nocheck")] } 1
  let (one, two) ← twoOperands line.operands
  let column := fun (letter : String) => do
    match (line.last? letter).or (line.last? "j") with
    | none => return 0
    | some value =>
      match Number.natural? value.toList with
      | some (n + 1) => return n
      | _ => fail 1 ("invalid field number: " ++ Naming.marked value)
  let left ← column "1"
  let right ← column "2"
  let separator := (line.last? "t").bind fun text => text.toList.head?
  let between := separator.getD ' '
  let alone := fun (side : String) => line.options.any fun (name, value) =>
    (name = "a" || name = "v") && value = some side
  let rows := fun (lines : List (List Char)) (column : Nat) => lines.map fun text =>
    let fields := fieldsOf separator text
    ((fields[column]?).getD [], fields)
  let first := rows (← linesAt one) left
  let second := rows (← linesAt two) right
  let others := fun (fields : List (List Char)) (column : Nat) =>
    fields.take column ++ fields.drop (column + 1)
  let filler := ((line.last? "e").getD "").toList
  let layout := (line.last? "o").map fun text =>
    (text.toList.splitOnP fun c => c = ',' || c = ' ').map String.ofList
  let showRow := fun (key : List Char) (a b : Option (List (List Char))) =>
    let cells :=
      match layout with
      | some layout => layout.map fun cell =>
          match cell.splitOn "." with
          | ["0"] => key
          | [side, column] =>
            let fields := if side = "1" then a else b
            let n := (column.toNat?).getD 1
            let found := ((fields.getD [])[n - 1]?).getD []
            if found.isEmpty then filler else found
          | _ => []
      | none => key :: others (a.getD []) (if a.isSome then left else 0) ++
          others (b.getD []) (if b.isSome then right else 0)
    put (List.intercalate [between] cells ++ ['\n'])
  let pairs := !line.has "v"
  let rec walk : Nat → List (List Char × List (List Char)) → List (List Char × List (List Char)) →
      Tool Unit
    | 0, _, _ => return
    | _, [], [] => return
    | fuel + 1, [], (key, fields) :: second => do
      if alone "2" then showRow key none (some fields)
      walk fuel [] second
    | fuel + 1, (key, fields) :: first, [] => do
      if alone "1" then showRow key (some fields) none
      walk fuel first []
    | fuel + 1, (key, fields) :: first, (other, cells) :: second => do
      match compareTexts key other with
      | .lt =>
        if alone "1" then showRow key (some fields) none
        walk fuel first ((other, cells) :: second)
      | .gt =>
        if alone "2" then showRow other none (some cells)
        walk fuel ((key, fields) :: first) second
      | .eq =>
        let mine := ((key, fields) :: first).takeWhile (·.1 = key)
        let theirs := ((other, cells) :: second).takeWhile (·.1 = key)
        if pairs then
          for (_, a) in mine do
            for (_, b) in theirs do
              showRow key (some a) (some b)
        walk fuel (((key, fields) :: first).drop mine.length)
          (((other, cells) :: second).drop theirs.length)
  walk (first.length + second.length + 1) first second
  return 0

end StyleTokens.Shell.Tool

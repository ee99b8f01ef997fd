/-
What `echo` and `printf` write.

* `escaped` — a text with its escapes carried out;
* `echoed` — what `echo` writes for its arguments;
* `Format.written` — what `printf` writes for a format and arguments, and what it
  complains about.

Design notes: all texts are octet texts.  A format is gone through again and again
until no argument is left; a pass that takes no argument is the only one.
-/
import StyleTokens.Shell.Real

namespace StyleTokens.Shell

/-- The sign that a letter after a backslash stands for. -/
def escapeSign? (c : Char) : Option Char :=
  [('\\', 92), ('a', 7), ('b', 8), ('f', 12), ('n', 10), ('r', 13), ('t', 9), ('v', 11)].lookup c
    |>.map Char.ofNat

/-- Whether a sign is an octal digit. -/
def isOctal (c : Char) : Bool :=
  '0' ≤ c && c ≤ '7'

/-- The byte of octal digits, as a sign. -/
def octalSign (digits : List Char) : Char :=
  Char.ofNat (digits.foldl (fun n d => n * 8 + (d.toNat - 48)) 0 % 256)

/-- The signs of the text after a backslash, and the rest of the text.  A zero in front
does not count as one of three digits if it is `spare`. -/
def escapeAfter (spare : Bool) : List Char → List Char × List Char
  | [] => (['\\'], [])
  | c :: rest =>
    if isOctal c then
      let text :=
        match rest with
        | d :: _ => if spare && c = '0' && isOctal d then rest else c :: rest
        | [] => [c]
      let digits := (text.take 3).takeWhile isOctal
      ([octalSign digits], text.drop digits.length)
    else
      match escapeSign? c with
      | some sign => ([sign], rest)
      | none => (['\\', c], rest)

/-- A text with its escapes carried out, and whether it goes on after it: `\c` ends
all output.  `fuel` is at least the length of the text. -/
def escaped : (fuel : Nat) → List Char → List Char × Bool
  | 0, _ => ([], true)
  | _, [] => ([], true)
  | _, '\\' :: 'c' :: _ => ([], false)
  | fuel + 1, '\\' :: rest =>
    let (signs, rest) := escapeAfter true rest
    let (more, goesOn) := escaped fuel rest
    (signs ++ more, goesOn)
  | fuel + 1, c :: rest =>
    let (more, goesOn) := escaped fuel rest
    (c :: more, goesOn)

/-- What `echo` writes. -/
def echoed (arguments : List String) : List Char :=
  let (ended, words) :=
    match arguments with
    | "-n" :: words => (false, words)
    | words => (true, words)
  let text := (" ".intercalate words).toList
  let (signs, goesOn) := escaped text.length text
  signs ++ if goesOn && ended then ['\n'] else []

namespace Format

/-- A conversion of a format. -/
structure Directive where
  left : Bool
  plus : Bool
  blank : Bool
  alternate : Bool
  zeros : Bool
  width : Nat
  precision : Option Nat
  conversion : Char
  deriving DecidableEq, Repr, Inhabited

/-- What has been written, in reverse, the arguments left, and the complaints. -/
structure Progress where
  signs : List (List Char) := []
  arguments : List String
  complaints : List String := []
  /-- The complaint because of which all ends. -/
  refusal : Option String := none
  /-- Whether output goes on. -/
  goesOn : Bool := true
  deriving Inhabited

/-- Signs with blanks up to the width. -/
def padded (directive : Directive) (signs : List Char) : List Char :=
  let blanks := List.replicate (directive.width - signs.length) ' '
  if directive.left then signs ++ blanks else blanks ++ signs

/-- Digits behind a mark, up to the width. -/
def paddedNumber (directive : Directive) (zeros : Bool) (mark digits : List Char) : List Char :=
  let filling :=
    if zeros && directive.zeros && !directive.left then
      List.replicate (directive.width - (mark.length + digits.length)) '0'
    else []
  padded directive (mark ++ filling ++ digits)

/-- The mark in front of a number. -/
def signMark (directive : Directive) (negative : Bool) : List Char :=
  if negative then ['-'] else if directive.plus then ['+'] else if directive.blank then [' '] else []

/-- The digits of a whole number, as many as the precision asks for. -/
def wholeDigits (directive : Directive) (base n : Nat) : List Char :=
  let digits := if n = 0 then [] else Nat.toDigits base n
  Real.filled (directive.precision.getD 1) digits

/-- A number with a sign. -/
def signed (directive : Directive) (n : Int) : List Char :=
  paddedNumber directive directive.precision.isNone (signMark directive (n < 0))
    (wholeDigits directive 10 n.natAbs)

/-- A number without a sign. -/
def unsigned (directive : Directive) (n : Nat) : List Char :=
  let plain := paddedNumber directive directive.precision.isNone
  match directive.conversion with
  | 'o' =>
    let digits := wholeDigits directive 8 n
    plain [] (if directive.alternate && digits.head? ≠ some '0' then '0' :: digits else digits)
  | 'x' => plain (if directive.alternate && n ≠ 0 then ['0', 'x'] else []) (wholeDigits directive 16 n)
  | 'X' =>
    (plain (if directive.alternate && n ≠ 0 then ['0', 'x'] else []) (wholeDigits directive 16 n)).map
      Char.toUpper
  | _ => plain [] (wholeDigits directive 10 n)

/-- A real number. -/
def real (directive : Directive) (value : Real) : List Char :=
  let form : Real.Form :=
    match directive.conversion.toLower with
    | 'f' => .fixed
    | 'e' => .scientific
    | 'g' => .general
    | _ => .hexadecimal
  let digits := value.written form directive.precision directive.alternate
  let mark := signMark directive value.isNegative
  let (mark, digits) :=
    match digits with
    | '0' :: 'x' :: rest => (mark ++ ['0', 'x'], rest)
    | _ => (mark, digits)
  let isFinite :=
    match value with
    | .finite _ _ => true
    | _ => false
  let signs := paddedNumber directive isFinite mark digits
  if directive.conversion.isUpper then signs.map Char.toUpper else signs

/-- Complaints about a number that was read from an argument. -/
def complaintsOf (argument : String) (begun excess : Bool) (rest : List Char) : List String :=
  if !begun && !argument.isEmpty then [argument ++ ": expected numeric value"]
  else if !rest.isEmpty then [argument ++ ": not completely converted"]
  else if excess then [argument ++ ": Numerical result out of range"]
  else []

/-- The byte after a quotation mark, as a number. -/
def quotedByte? (argument : String) : Option Nat :=
  match argument.toList with
  | '\'' :: rest | '"' :: rest => some ((rest.head?.map Char.toNat).getD 0)
  | _ => none

/-- The whole number of an argument, with complaints if it is none. -/
def whole (withSign : Bool) (argument : String) : Int × List String :=
  match quotedByte? argument with
  | some byte => (byte, [])
  | none =>
    let text := argument.toList
    let (negative, body) :=
      match text.dropWhile Arithmetic.isBlank with
      | '-' :: rest => (true, rest)
      | '+' :: rest => (false, rest)
      | rest => (false, rest)
    let (size, rest) := Arithmetic.readPlain none body
    if rest.length = body.length then (0, complaintsOf argument false false [])
    else
      let n : Int := if negative then -(size : Int) else size
      if withSign then
        let fit := max Arithmetic.least (min Arithmetic.greatest n)
        (fit, complaintsOf argument true (fit ≠ n) rest)
      else if size < Count.bound then (Arithmetic.bits n, complaintsOf argument true false rest)
      else ((Count.bound : Int) - 1, complaintsOf argument true true rest)

/-- The real number of an argument, with complaints if it is none. -/
def realOf (argument : String) : Real × List String :=
  match quotedByte? argument with
  | some byte => (.finite false ((Binary64.nearest? byte 1).getD .zero), [])
  | none =>
    match Real.read? argument.toList with
    | none => (.finite false .zero, complaintsOf argument false false [])
    | some reading => (reading.value, complaintsOf argument true reading.excess reading.rest)

/-- Takes an argument. -/
def Progress.next (progress : Progress) : Option String × Progress :=
  match progress.arguments with
  | [] => (none, progress)
  | argument :: arguments => (some argument, { progress with arguments })

/-- Adds signs. -/
def Progress.add (progress : Progress) (signs : List Char) : Progress :=
  { progress with signs := signs :: progress.signs }

/-- Adds complaints. -/
def Progress.complain (progress : Progress) (complaints : List String) : Progress :=
  { progress with complaints := progress.complaints ++ complaints }

/-- Ends all with a complaint. -/
def Progress.refuse (progress : Progress) (reason : String) : Progress :=
  { progress with goesOn := false, refusal := some reason }

/-- Carries out a conversion; `source` is how it is written. -/
def convert (directive : Directive) (source : List Char) (progress : Progress) : Progress :=
  let (argument, after) := progress.next
  let text := argument.getD ""
  let cut := fun (signs : List Char) => signs.take (directive.precision.getD signs.length)
  match directive.conversion with
  | 's' => after.add (padded directive (cut text.toList))
  | 'b' =>
    let (signs, goesOn) := escaped text.length text.toList
    { after.add (padded directive (cut signs)) with goesOn }
  | 'c' => after.add (padded directive [(text.toList.head?).getD (Char.ofNat 0)])
  | 'd' | 'i' =>
    let (n, complaints) := whole true text
    (after.complain complaints).add (signed directive n)
  | 'u' | 'o' | 'x' | 'X' =>
    let (n, complaints) := whole false text
    (after.complain complaints).add (unsigned directive n.toNat)
  | 'e' | 'E' | 'f' | 'F' | 'g' | 'G' | 'a' | 'A' =>
    let (value, complaints) := realOf text
    (after.complain complaints).add (real directive value)
  | _ => progress.refuse (String.ofList source ++ ": invalid directive")

/-- Digits that make a number, or an argument in place of a star. -/
def size (text : List Char) (progress : Progress) : Option Int × List Char × Progress :=
  match text with
  | '*' :: rest =>
    let (argument, progress) := progress.next
    let (n, complaints) := whole true (argument.getD "")
    (some n, rest, progress.complain complaints)
  | _ =>
    let (n, rest) := Arithmetic.readDigits 10 text
    (if rest.length = text.length then none else some n, rest, progress)

/-- The text after a percent sign: a conversion, and what comes after it. -/
def directive (text : List Char) (progress : Progress) : Option Directive × List Char × Progress :=
  let flags := text.takeWhile fun c => "-+ #0".toList.contains c
  let (width, rest, progress) := size (text.drop flags.length) progress
  let (precision, rest, progress) : Option Int × List Char × Progress :=
    match rest with
    | '.' :: rest =>
      let (n, rest, progress) := size rest progress
      (some (n.getD 0), rest, progress)
    | _ => (none, rest, progress)
  match rest with
  | [] => (none, [], progress)
  | conversion :: rest =>
    let width := width.getD 0
    (some {
      left := flags.contains '-' || width < 0, plus := flags.contains '+', blank := flags.contains ' '
      alternate := flags.contains '#', zeros := flags.contains '0', width := width.natAbs
      precision := precision.bind fun n => if n < 0 then none else some n.toNat
      conversion }, rest, progress)

/-- Goes through a format once.  `fuel` is at least its length. -/
def pass : (fuel : Nat) → List Char → Progress → Progress
  | 0, _, progress => progress
  | _, [], progress => progress
  | fuel + 1, '\\' :: rest, progress =>
    let (signs, rest) := escapeAfter false rest
    pass fuel rest (progress.add signs)
  | fuel + 1, '%' :: '%' :: rest, progress => pass fuel rest (progress.add ['%'])
  | fuel + 1, '%' :: rest, progress =>
    match directive rest progress with
    | (none, _, progress) => progress.refuse "missing format character"
    | (some found, after, progress) =>
      let source := '%' :: rest.take (rest.length - after.length)
      let progress := convert found source progress
      if progress.goesOn then pass fuel after progress else progress
  | fuel + 1, c :: rest, progress => pass fuel rest (progress.add [c])

/-- Goes through a format until no argument is left, `fuel` times at most. -/
def passes : (fuel : Nat) → List Char → Progress → Progress
  | 0, _, progress => progress
  | fuel + 1, format, progress =>
    let after := pass format.length format progress
    if !after.goesOn || after.arguments.isEmpty ||
      after.arguments.length = progress.arguments.length then after
    else passes fuel format after

/-- What is written for a format and arguments, and the complaints. -/
def written (format : String) (arguments : List String) : List Char × Progress :=
  let progress := passes (arguments.length + 1) format.toList { arguments }
  (progress.signs.reverse.flatten, progress)

end Format

end StyleTokens.Shell

/-
Real numbers as they are read and written in formats.

* `Real` — a floating-point number with a sign, an infinity, or no number;
* `Real.read?` — the number at the start of a text;
* `Real.written` — a number in one of the forms of `Form`.

Design notes: numbers are read and written exactly and rounded once, of two that are
equally near to the even one.
-/
import StyleTokens.Binary64
import StyleTokens.Shell.Arithmetic

namespace StyleTokens.Shell

/-- A floating-point number with a sign. -/
inductive Real
  | finite (negative : Bool) (size : Binary64)
  | infinite (negative : Bool)
  | undefined (negative : Bool)
  deriving DecidableEq, Repr, Inhabited

namespace Real

/-- A real number that was read. -/
structure Reading where
  value : Real
  /-- Whether the number is too great, or too small to be told apart well. -/
  excess : Bool := false
  rest : List Char
  deriving Inhabited

/-- Whether the sign is negative. -/
def isNegative : Real → Bool
  | finite negative _ | infinite negative | undefined negative => negative

/-- The text without a start, which may be in capitals. -/
def skip? (start : String) (text : List Char) : Option (List Char) :=
  if (text.take start.length).map Char.toLower = start.toList then some (text.drop start.length)
  else none

/-- A power, with the exponent cut to what still makes a difference. -/
def power (base : Nat) (exponent : Int) : Nat :=
  Nat.pow base (min exponent.toNat 6000)

/-- The number nearest to `digits * base ^ scale`. -/
def nearest (negative : Bool) (digits base : Nat) (scale : Int) (rest : List Char) : Reading :=
  let size : Int := (Nat.toDigits base digits).length
  if digits = 0 then { value := finite negative .zero, rest }
  else if scale + size > 2000 then { value := infinite negative, excess := true, rest }
  else if scale + size < -2000 then { value := finite negative .zero, excess := true, rest }
  else
    let num := digits * power base scale
    let den := power base (-scale)
    match Binary64.nearest? num den with
    | none => { value := infinite negative, excess := true, rest }
    | some found =>
      let exact := Binary64.raised found.mantissa found.exponent * den =
        Binary64.raised num (-found.exponent)
      let isSmall := found.mantissa < Binary64.mantissaBound / 2
      { value := finite negative found, excess := isSmall && !exact, rest }

/-- Digits with a point among them, as a number and the places behind the point; none
if there is no digit. -/
def pointed (base : Nat) (text : List Char) : Option (Nat × Nat × List Char) :=
  let (whole, rest) := Arithmetic.readDigits base text
  let count := text.length - rest.length
  match rest with
  | '.' :: after =>
    let (part, rest) := Arithmetic.readDigits base after
    let places := after.length - rest.length
    if count + places = 0 then none
    else some (whole * Nat.pow base places + part, places, rest)
  | _ => if count = 0 then none else some (whole, 0, rest)

/-- An exponent behind its letter, and the text after it; without digits there is none. -/
def exponent (letter : Char) (text : List Char) : Int × List Char :=
  match text with
  | c :: rest =>
    if c.toLower ≠ letter then (0, text)
    else
      let (negative, body) :=
        match rest with
        | '-' :: body => (true, body)
        | '+' :: body => (false, body)
        | body => (false, body)
      let (size, after) := Arithmetic.readDigits 10 body
      if after.length = body.length then (0, text)
      else (if negative then -(size : Int) else size, after)
  | [] => (0, text)

/-- The number without a sign at the start of a text. -/
def readPlain? (negative : Bool) (text : List Char) : Option Reading :=
  let decimal := fun _ : Unit =>
    (pointed 10 text).map fun (digits, places, rest) =>
      let (scale, rest) := exponent 'e' rest
      nearest negative digits 10 (scale - places) rest
  match skip? "infinity" text, skip? "inf" text, skip? "nan" text, skip? "0x" text with
  | some rest, _, _, _ | _, some rest, _, _ => some { value := infinite negative, rest }
  | _, _, some rest, _ => some { value := undefined negative, rest }
  | _, _, _, some rest =>
    match pointed 16 rest with
    | some (digits, places, rest) =>
      let (scale, rest) := exponent 'p' rest
      some (nearest negative digits 2 (scale - 4 * places) rest)
    | none => decimal ()
  | _, _, _, _ => decimal ()

/-- The number at the start of a text, if there is one. -/
def read? (text : List Char) : Option Reading :=
  match text.dropWhile Arithmetic.isBlank with
  | '-' :: rest => readPlain? true rest
  | '+' :: rest => readPlain? false rest
  | rest => readPlain? false rest

/-! Writing -/

/-- How a number is written. -/
inductive Form
  /-- With so many places behind the point. -/
  | fixed
  /-- With an exponent. -/
  | scientific
  /-- The shorter of both, with so many digits. -/
  | general
  /-- In the base sixteen. -/
  | hexadecimal
  deriving DecidableEq, Repr, Inhabited

/-- The ratio that a number is. -/
def ratio (number : Binary64) : Nat × Nat :=
  (Binary64.raised number.mantissa number.exponent, Binary64.raised 1 (-number.exponent))

/-- The decimal digits of a number. -/
def digitsOf (n : Nat) : List Char :=
  Nat.toDigits 10 n

/-- Digits with at least so many of them. -/
def filled (count : Nat) (digits : List Char) : List Char :=
  List.replicate (count - digits.length) '0' ++ digits

/-- Digits with a point before the last ones; without those there is a point only if
it is asked for. -/
def dotted (places : Nat) (point : Bool) (digits : List Char) : List Char :=
  let digits := filled (places + 1) digits
  let whole := digits.take (digits.length - places)
  let part := digits.drop (digits.length - places)
  whole ++ (if part.isEmpty && !point then [] else '.' :: part)

/-- A number with so many places behind the point. -/
def inFixed (number : Binary64) (places : Nat) (point : Bool) : List Char :=
  let (num, den) := ratio number
  dotted places point (digitsOf (Binary64.roundEven (num * Nat.pow 10 places) den))

/-- The digits of a number, one before the point and so many behind it, and its
exponent. -/
def rounded (number : Binary64) (places : Nat) : Nat × Int :=
  if number.mantissa = 0 then (0, 0)
  else
    let (num, den) := ratio number
    let scale := number.decimalExponent
    let shift := (places : Int) - scale
    let digits := Binary64.roundEven (num * Nat.pow 10 shift.toNat) (den * Nat.pow 10 (-shift).toNat)
    if digits = Nat.pow 10 (places + 1) then (digits / 10, scale + 1) else (digits, scale)

/-- An exponent with its letter and sign. -/
def exponentText (letter : Char) (least : Nat) (n : Int) : List Char :=
  letter :: (if n < 0 then '-' else '+') :: filled least (digitsOf n.natAbs)

/-- A number with an exponent. -/
def inScientific (number : Binary64) (places : Nat) (point : Bool) : List Char :=
  let (digits, scale) := rounded number places
  dotted places point (digitsOf digits) ++ exponentText 'e' 2 scale

/-- Digits without the zeros behind the point. -/
def trimmed (text : List Char) : List Char :=
  if text.contains '.' then
    ((text.reverse.dropWhile (· = '0')).dropWhile (· = '.')).reverse
  else text

/-- A number in the shorter form. -/
def inGeneral (number : Binary64) (count : Nat) (point : Bool) : List Char :=
  let count := max count 1
  let (digits, scale) := rounded number (count - 1)
  let trim := fun text => if point then text else trimmed text
  if -4 ≤ scale && scale < count then trim (inFixed number (((count : Int) - 1 - scale).toNat) point)
  else trim (dotted (count - 1) point (digitsOf digits)) ++ exponentText 'e' 2 scale

/-- A number in the base sixteen. -/
def inHexadecimal (number : Binary64) (places : Option Nat) (point : Bool) : List Char :=
  let least := number.mantissa < Binary64.mantissaBound / 2
  let scale : Int := if number.mantissa = 0 then 0 else number.exponent + 52
  let mantissa :=
    match places with
    | some places =>
      if places < 13 then Binary64.roundEven number.mantissa (1 <<< (4 * (13 - places)))
      else number.mantissa <<< (4 * (places - 13))
    | none => number.mantissa
  let count := places.getD 13
  let digits := (Nat.toDigits 16 mantissa)
  let text := dotted count point digits
  let text := if places.isNone && !point then trimmed text else text
  '0' :: 'x' :: text ++ exponentText 'p' 1 (if least && number.mantissa ≠ 0 then -1022 else scale)

/-- The number without its sign in a form. -/
def written (form : Form) (precision : Option Nat) (point : Bool) : Real → List Char
  | infinite _ => "inf".toList
  | undefined _ => "nan".toList
  | finite _ number =>
    match form with
    | .fixed => inFixed number (precision.getD 6) point
    | .scientific => inScientific number (precision.getD 6) point
    | .general => inGeneral number (precision.getD 6) point
    | .hexadecimal => inHexadecimal number precision point

end Real

end StyleTokens.Shell

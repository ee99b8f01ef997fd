/-
Numbers in arguments of programs.

* `Number.natural?` — digits as a number;
* `Number.sized?` — a number of units with a suffix such as `K` or `kB`;
* `Decimal` — decimals, which are computed with exactly.
-/
namespace StyleTokens.Shell

namespace Number

/-- Digits as a number. -/
def natural? (text : List Char) : Option Nat :=
  if text.isEmpty || !text.all Char.isDigit then none
  else some (text.foldl (fun n c => n * 10 + (c.toNat - 48)) 0)

/-- The powers by the letters of suffixes. -/
def powers : List (Char × Nat) :=
  [('k', 1), ('K', 1), ('M', 2), ('G', 3), ('T', 4), ('P', 5), ('E', 6), ('Z', 7), ('Y', 8)]

/-- What a suffix stands for. -/
def factor? : List Char → Option Nat
  | [] => some 1
  | ['b'] => some 512
  | [c] => (powers.lookup c).map (Nat.pow 1024)
  | [c, 'B'] => (powers.lookup c).map (Nat.pow 1000)
  | [c, 'i', 'B'] => (powers.lookup c).map (Nat.pow 1024)
  | _ => none

/-- A number with a suffix. -/
def sized? (text : List Char) : Option Nat := do
  let digits := text.takeWhile Char.isDigit
  let n ← natural? digits
  return n * (← factor? (text.drop digits.length))

end Number

/-- The number `digits / 10 ^ places`. -/
structure Decimal where
  digits : Int
  places : Nat := 0
  deriving DecidableEq, Repr, Inhabited

namespace Decimal

/-- A text as a decimal. -/
def read? (text : List Char) : Option Decimal := do
  let (sign, body) : Int × List Char :=
    match text with
    | '-' :: rest => (-1, rest)
    | '+' :: rest => (1, rest)
    | rest => (1, rest)
  let whole := body.takeWhile Char.isDigit
  match body.drop whole.length with
  | [] => return ⟨sign * (← Number.natural? whole), 0⟩
  | '.' :: part =>
    let n ← Number.natural? (whole ++ part)
    return ⟨sign * n, part.length⟩
  | _ => none

/-- The digits of a decimal with so many places. -/
def scaled (decimal : Decimal) (places : Nat) : Int :=
  decimal.digits * (Nat.pow 10 (places - decimal.places) : Nat)

/-- Digits with a point before the last so many of them. -/
def text (digits : Int) (places : Nat) : List Char :=
  let written := (toString digits.natAbs).toList
  let filled := List.replicate (places + 1 - written.length) '0' ++ written
  let sign := if digits < 0 then ['-'] else []
  if places = 0 then sign ++ filled
  else sign ++ filled.take (filled.length - places) ++ '.' :: filled.drop (filled.length - places)

end Decimal

end StyleTokens.Shell

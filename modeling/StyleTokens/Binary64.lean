/-
Binary floating-point numbers of 64 bits.

Only numbers that are finite and not negative occur; a sign is kept beside them.
All computations are exact, followed by one rounding to the nearest number, of
two that are equally near to the even one.

* `Binary64.nearest?` — the number nearest to a ratio;
* `Binary64.ofDecimal?` — the number that a decimal stands for;
* `Binary64.shortest` — the fewest decimal digits that tell a number apart.

Design notes: `ofDecimal?` rounds the digits, rounds the power of ten and then
their product or quotient, so it may miss the nearest number by a little.
-/
import StyleTokens.Count

namespace StyleTokens

/-- The number `mantissa * 2 ^ exponent`. -/
structure Binary64 where
  mantissa : Nat
  exponent : Int
  deriving DecidableEq, Repr, Inhabited

namespace Binary64

/-- The least exponent. -/
def minExponent : Int := -1074

/-- The greatest exponent. -/
def maxExponent : Int := 971

/-- Mantissas stay below this number, and reach its half unless the exponent is
the least one. -/
def mantissaBound : Nat := 0x20000000000000

/-- The number zero. -/
def zero : Binary64 :=
  ⟨0, minExponent⟩

/-- A number shifted to the left. -/
def raised (n : Nat) (places : Int) : Nat :=
  n <<< places.toNat

/-- The integer nearest to a ratio, of two the even one. -/
def roundEven (num den : Nat) : Nat :=
  let low := num / den
  let twice := 2 * (num % den)
  if twice < den || (twice = den && low % 2 = 0) then low else low + 1

/-- The greatest power of two that is not above a ratio, by its exponent. -/
def magnitude (num den : Nat) : Int :=
  let guess : Int := num.log2 - den.log2
  if raised den guess ≤ raised num (-guess) then guess else guess - 1

/-- The number nearest to a ratio; none if it is too great. -/
def nearest? (num den : Nat) : Option Binary64 :=
  if num = 0 then some zero
  else
    let exponent := max (magnitude num den - 52) minExponent
    let mantissa := roundEven (raised num (-exponent)) (raised den exponent)
    let rounded : Binary64 :=
      if mantissa = mantissaBound then ⟨mantissa / 2, exponent + 1⟩ else ⟨mantissa, exponent⟩
    if rounded.exponent ≤ maxExponent then some rounded else none

/-- The product of two numbers. -/
def mul? (a b : Binary64) : Option Binary64 :=
  let exponent := a.exponent + b.exponent
  nearest? (raised (a.mantissa * b.mantissa) exponent) (raised 1 (-exponent))

/-- The quotient of two numbers. -/
def div? (a b : Binary64) : Option Binary64 :=
  let exponent := a.exponent - b.exponent
  nearest? (raised a.mantissa exponent) (raised b.mantissa (-exponent))

/-- A power of ten. -/
def tenTo? (n : Nat) : Option Binary64 :=
  nearest? (Nat.pow 10 n) 1

/-- The greatest power of ten that is a number, by its exponent. -/
def maxTen : Nat := 308

/-- The number that `digits * 10 ^ scale` stands for; none if it is too great.
Scales below the table of powers of ten are reached in two steps. -/
def ofDecimal? (digits : Nat) (scale : Int) : Option Binary64 := do
  let down := (-scale).toNat
  if digits = 0 || 2 * maxTen < down then return zero
  if maxTen < scale then none
  let start ← nearest? digits 1
  if 0 ≤ scale then start.mul? (← tenTo? scale.toNat)
  else if down ≤ maxTen then start.div? (← tenTo? down)
  else (← start.div? (← tenTo? maxTen)).div? (← tenTo? (down - maxTen))

/-- A decimal `digits * 10 ^ scale`. -/
structure Decimal where
  digits : Nat
  scale : Int
  deriving DecidableEq, Repr, Inhabited

/-- The ratio that a decimal is. -/
def Decimal.ratio (decimal : Decimal) : Nat × Nat :=
  (decimal.digits * Nat.pow 10 decimal.scale.toNat, Nat.pow 10 (-decimal.scale).toNat)

/-- The decimal without zeros at its end, `places` of them at most. -/
def Decimal.stripped : (places : Nat) → Decimal → Decimal
  | 0, decimal => decimal
  | places + 1, decimal =>
    if decimal.digits % 10 = 0 then stripped places ⟨decimal.digits / 10, decimal.scale + 1⟩
    else decimal

/-- Four times the number, and its least and greatest neighbours that still round
to it, over a common denominator. -/
def fence (number : Binary64) : Nat × Nat × Nat × Nat :=
  let narrow := number.mantissa = mantissaBound / 2 && number.exponent ≠ minExponent
  let scaled := fun n => raised n number.exponent
  (scaled (4 * number.mantissa), scaled (4 * number.mantissa - if narrow then 1 else 2),
    scaled (4 * number.mantissa + 2), raised 4 (-number.exponent))

/-- Whether a decimal rounds to a number. -/
def admits (number : Binary64) (decimal : Decimal) : Bool :=
  let (_, low, high, den) := number.fence
  let (n, d) := decimal.ratio
  if number.mantissa % 2 = 0 then low * d ≤ n * den && n * den ≤ high * d
  else low * d < n * den && n * den < high * d

/-- The exponent of the first decimal digit of a number. -/
def decimalExponent (number : Binary64) : Int :=
  let (middle, _, _, den) := number.fence
  let size := fun n => (Nat.toDigits 10 n).length
  let guess : Int := size middle - size den
  if den * Nat.pow 10 guess.toNat ≤ middle * Nat.pow 10 (-guess).toNat then guess else guess - 1

/-- The decimal of a number of digits nearest to a number, if it rounds to it; of
two equally near ones the even one. -/
def rounded? (number : Binary64) (places : Nat) : Option Decimal :=
  let scale := number.decimalExponent - places + 1
  let (middle, _, _, den) := number.fence
  let low := middle * Nat.pow 10 (-scale).toNat / (den * Nat.pow 10 scale.toNat)
  let near := roundEven (middle * Nat.pow 10 (-scale).toNat) (den * Nat.pow 10 scale.toNat)
  let far := if near = low then low + 1 else low
  [⟨near, scale⟩, ⟨far, scale⟩].find? number.admits

/-- The decimal of the fewest digits that rounds to a number, and of those the
nearest one; seventeen digits are always enough. -/
def shortest (number : Binary64) : Decimal :=
  if number.mantissa = 0 then ⟨0, 0⟩
  else
    match (List.range 17).findSome? fun places => number.rounded? (places + 1) with
    | some decimal => decimal.stripped 17
    | none => ⟨0, 0⟩

end Binary64

end StyleTokens

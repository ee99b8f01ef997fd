/-
Literals and the keys they are looked up by.

* `Literal.key` — two literals are the same literal when their keys agree.
  Colors are compared without white space and without regard to the case of
  ASCII letters; lengths by their number, whatever the unit.
* `Literal.isNeutralZero` — a zero without a unit, which needs no token.
-/
import StyleTokens.Category

namespace StyleTokens.Literal

open Text (isBlank trim)

/-- The signs that can begin a length. -/
def isNumberSign (c : Char) : Bool :=
  c.isDigit || c == '.' || c == '-' || c == '+'

/-- The key of a color. -/
def colorKey (literal : List Char) : List Char :=
  (literal.filter (!isBlank ·)).map Char.toLower

/-- The key of a length: its leading number without plus signs in front, or all
of it if there is no number. -/
def lengthKey (literal : List Char) : List Char :=
  let whole := (trim literal).map Char.toLower
  let number := (whole.takeWhile isNumberSign).dropWhile (· == '+')
  if number.isEmpty then whole else number

/-- The key of a literal. -/
def key (kind : LiteralKind) (literal : List Char) : List Char :=
  match kind with
  | .color => colorKey literal
  | .length => lengthKey literal

/-- Whether a literal is a zero without a unit. -/
def isNeutralZero (kind : LiteralKind) (literal : List Char) : Bool :=
  kind == .length && (lengthKey literal).dropWhile (· == '-') == ['0'] &&
    !(trim literal).any Char.isAlpha

end StyleTokens.Literal

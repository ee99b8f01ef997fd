/-
Permissions of files.

* `Mode.change?` — a change of permissions as it is written;
* `Mode.shown` — permissions as nine signs.
-/
import StyleTokens.Shell.Tool.Number

namespace StyleTokens.Shell.Mode

/-- Octal digits as a number. -/
def octal? (text : List Char) : Option Nat :=
  if text.isEmpty || !text.all fun c => '0' ≤ c && c ≤ '7' then none
  else
    let n := text.foldl (fun n c => n * 8 + (c.toNat - 48)) 0
    if n ≤ 0o7777 then some n else none

/-- The bits without others. -/
def without (mode bits : Nat) : Nat :=
  mode &&& (0o7777 ^^^ bits)

/-- The bits of those who are meant. -/
def whoBits (letters : List Char) : Nat :=
  letters.foldl (fun bits c =>
    bits ||| match c with
      | 'u' => 0o4700
      | 'g' => 0o2070
      | 'o' => 0o1007
      | _ => 0o7777) 0

/-- The bits of a permission for all. -/
def permission (isDirectory : Bool) (mode : Nat) : Char → Nat
  | 'r' => 0o444
  | 'w' => 0o222
  | 'x' => 0o111
  | 'X' => if isDirectory || mode &&& 0o111 ≠ 0 then 0o111 else 0
  | 's' => 0o6000
  | 't' => 0o1000
  | 'u' => (mode / 64 % 8) * 0o111
  | 'g' => (mode / 8 % 8) * 0o111
  | _ => (mode % 8) * 0o111

/-- The mode after operations for some people. -/
def operations (isDirectory : Bool) (mask : Nat) (who : List Char) :
    (fuel : Nat) → List Char → Nat → Option Nat
  | 0, _, _ => none
  | _, [], mode => some mode
  | fuel + 1, sign :: rest, mode =>
    if !"+-=".toList.contains sign then none
    else
      let letters := rest.takeWhile "rwxXstugo".toList.contains
      let after := rest.drop letters.length
      let all := letters.foldl (fun bits c => bits ||| permission isDirectory mode c) 0
      let scope := if who.isEmpty then 0o7777 else whoBits who
      let bits := all &&& scope
      let bits := if who.isEmpty then without bits mask else bits
      let mode :=
        if sign = '+' then mode ||| bits
        else if sign = '-' then without mode bits
        else
          let kept := if isDirectory then mode &&& 0o6000 else 0
          (without mode (if who.isEmpty then 0o7777 else scope)) ||| bits ||| kept
      operations isDirectory mask who fuel after mode

/-- The mode after a change as it is written; none if that is no change. -/
def change? (mask : Nat) (isDirectory : Bool) (text : String) (mode : Nat) : Option Nat :=
  match octal? text.toList with
  | some n => some n
  | none =>
    (text.splitOn ",").foldlM (fun mode part =>
      let who := part.toList.takeWhile "ugoa".toList.contains
      let rest := part.toList.drop who.length
      if rest.isEmpty then none else operations isDirectory mask who (rest.length + 1) rest mode) mode

/-- Permissions as nine signs. -/
def shown (mode : Nat) : String :=
  let group := fun (shift special : Nat) (letter : Char) =>
    let bits := mode >>> shift
    let runs := bits &&& 1 ≠ 0
    let isSpecial := mode &&& special ≠ 0
    [if bits &&& 4 ≠ 0 then 'r' else '-', if bits &&& 2 ≠ 0 then 'w' else '-',
      if isSpecial then (if runs then letter else letter.toUpper) else if runs then 'x' else '-']
  String.ofList (group 6 0o4000 's' ++ group 3 0o2000 's' ++ group 0 0o1000 't')

/-- Permissions as octal digits, at least so many. -/
def digits (least mode : Nat) : String :=
  let text := Nat.toDigits 8 mode
  String.ofList (List.replicate (least - text.length) '0' ++ text)

end StyleTokens.Shell.Mode

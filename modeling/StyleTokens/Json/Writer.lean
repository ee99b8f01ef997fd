/-
Writing JSON documents.

* `Json.compact` — the document on one line, without white space;
* `Json.pretty` — one item or member a line, indented by two blanks.

Both write the members of an object in the order in which they stand.
-/
import StyleTokens.Binary64
import StyleTokens.Json.Basic
import StyleTokens.Text.Quoted

namespace StyleTokens.Json

/-- A control character by its code, in four hexadecimal digits. -/
def codeEscape (c : Char) : String :=
  "\\u" ++ String.ofList (List.replicate (4 - (Text.hexadecimal c.toNat).length) '0') ++
    Text.hexadecimal c.toNat

/-- A character as it stands in a string. -/
def escape (c : Char) : String :=
  match c with
  | '"' => "\\\""
  | '\\' => "\\\\"
  | '\n' => "\\n"
  | '\r' => "\\r"
  | '\t' => "\\t"
  | '\x08' => "\\b"
  | '\x0c' => "\\f"
  | c => if c.toNat < 0x20 then codeEscape c else c.toString

/-- A string between quotes. -/
def quote (text : String) : String :=
  "\"" ++ String.join (text.toList.map escape) ++ "\""

/-- A list of digits, with zeros in front up to a width. -/
def padded (width n : Nat) : List Char :=
  let digits := Nat.toDigits 10 n
  List.replicate (width - digits.length) '0' ++ digits

/-- The digits of a decimal with the point after the first of them. -/
def pointed : List Char → List Char
  | [first] => [first]
  | first :: digits => first :: '.' :: digits
  | [] => []

/-- A decimal.  Its digits are written out if the first of them counts for at least
`10 ^ -5` and less than `10 ^ 16`, and there is always one behind the point; any other
decimal has an exponent of two digits or more, with a sign. -/
def plainDecimal (decimal : Binary64.Decimal) : List Char :=
  let digits := Nat.toDigits 10 decimal.digits
  let first := decimal.scale + digits.length - 1
  if -5 ≤ first && first ≤ 15 then
    if 0 ≤ decimal.scale then digits ++ List.replicate decimal.scale.toNat '0' ++ ['.', '0']
    else if 0 ≤ first then
      digits.take (first.toNat + 1) ++ '.' :: digits.drop (first.toNat + 1)
    else '0' :: '.' :: List.replicate ((-first).toNat - 1) '0' ++ digits
  else
    pointed digits ++ 'e' :: (if first < 0 then '-' else '+') :: padded 2 first.natAbs

/-- A real number, by the fewest digits that tell it apart. -/
def realText (negative : Bool) (digits : Nat) (scale : Int) : String :=
  match Binary64.ofDecimal? digits scale with
  | some number =>
    (if negative then "-" else "") ++ String.ofList (plainDecimal number.shortest)
  | none => "null"

/-- A value that has no parts. -/
def atom : Json → String
  | null | unreadable | array _ | object _ => "null"
  | bool value => if value then "true" else "false"
  | integer value => toString value
  | real negative digits scale => realText negative digits scale
  | string value => quote value

mutual

/-- The document on one line. -/
def compact : Json → String
  | array items => "[" ++ ",".intercalate (compactItems items) ++ "]"
  | object members => "\x7b" ++ ",".intercalate (compactMembers members) ++ "\x7d"
  | other => other.atom

/-- The items of an array, each on its own. -/
def compactItems : List Json → List String
  | [] => []
  | item :: items => item.compact :: compactItems items

/-- The members of an object, each on its own. -/
def compactMembers : List (String × Json) → List String
  | [] => []
  | (name, value) :: members => (quote name ++ ":" ++ value.compact) :: compactMembers members

end

/-- Lines between two brackets, indented by `depth` steps, or the brackets alone. -/
def block (opening closing : String) (depth : Nat) (lines : List String) : String :=
  if lines.isEmpty then opening ++ closing
  else
    let blanks := fun n => String.ofList (List.replicate (2 * n) ' ')
    opening ++ "\n" ++ ",\n".intercalate (lines.map (blanks (depth + 1) ++ ·)) ++ "\n" ++
      blanks depth ++ closing

mutual

/-- The document over several lines, `depth` steps from the margin. -/
def prettyAt (depth : Nat) : Json → String
  | array items => block "[" "]" depth (prettyItems (depth + 1) items)
  | object members => block "\x7b" "\x7d" depth (prettyMembers (depth + 1) members)
  | other => other.atom

/-- The items of an array, each on its own. -/
def prettyItems (depth : Nat) : List Json → List String
  | [] => []
  | item :: items => item.prettyAt depth :: prettyItems depth items

/-- The members of an object, each on its own. -/
def prettyMembers (depth : Nat) : List (String × Json) → List String
  | [] => []
  | (name, value) :: members =>
    (quote name ++ ": " ++ value.prettyAt depth) :: prettyMembers depth members

end

/-- The document over several lines. -/
def pretty (document : Json) : String :=
  document.prettyAt 0

end StyleTokens.Json

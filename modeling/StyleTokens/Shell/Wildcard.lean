/-
Wildcards in shell words.

* `Wildcard.ofField` — the items of a text, quoted signs of which stand for
  themselves, as do those behind a backslash;
* `Wildcard.accepts` — whether a text is matched as a whole.

Design notes: the places that may be reached are kept as lists of rests of the text,
so that each is looked at once for every item.
-/
namespace StyleTokens.Shell

/-- The signs of a text, with whether they are quoted. -/
abbrev Field := List (Char × Bool)

/-- The text of a field. -/
def Field.text (field : Field) : String :=
  String.ofList (field.map (·.1))

/-- The field with backslashes carried out that are not quoted themselves: each quotes
the next sign. -/
def Field.unescaped : Field → Field
  | [] => []
  | ('\\', false) :: (c, _) :: rest => (c, true) :: Field.unescaped rest
  | sign :: rest => sign :: Field.unescaped rest

/-- A member of a bracket. -/
inductive Bracketed
  | range (low high : Char)
  /-- A class of signs with a name. -/
  | named (inside : Char → Bool)

/-- An item of a wildcard. -/
inductive Wildcard
  | sign (c : Char)
  /-- Any sign. -/
  | one
  /-- Any text. -/
  | any
  /-- A sign that is a member, or one that is none. -/
  | bracket (negated : Bool) (members : List Bracketed)

namespace Wildcard

/-- The classes of signs by their names. -/
def classes : List (String × (Char → Bool)) := [
  ("alnum", Char.isAlphanum), ("alpha", Char.isAlpha), ("blank", fun c => c = ' ' || c = '\t'),
  ("cntrl", fun c => c.toNat < 32 || c.toNat = 127), ("digit", Char.isDigit),
  ("graph", fun c => 32 < c.toNat && c.toNat < 127), ("lower", Char.isLower),
  ("print", fun c => 32 ≤ c.toNat && c.toNat < 127),
  ("punct", fun c => 32 < c.toNat && c.toNat < 127 && !c.isAlphanum),
  ("space", fun c => c = ' ' || (9 ≤ c.toNat && c.toNat ≤ 13)), ("upper", Char.isUpper),
  ("xdigit", fun c => c.isDigit || ('a' ≤ c.toLower && c.toLower ≤ 'f'))]

/-- A class between colons at the start of a text, and the text after it. -/
def class? (text : Field) : Option ((Char → Bool) × Field) :=
  match text with
  | (':', false) :: rest =>
    let name := rest.takeWhile (·.1 ≠ ':')
    match rest.drop name.length with
    | (':', false) :: (']', false) :: after => (classes.lookup (Field.text name)).map fun inside => (inside, after)
    | _ => none
  | _ => none

/-- The number that orders signs in ranges: bytes above 127 come first. -/
def order (c : Char) : Int :=
  if c.toNat < 128 then c.toNat else (c.toNat : Int) - 256

/-- The members of a bracket up to the closing one, which may come first as a sign;
and what comes after. -/
def members : (fuel : Nat) → (first : Bool) → Field → Option (List Bracketed × Field)
  | 0, _, _ => none
  | _ + 1, _, [] => none
  | fuel + 1, first, (c, quoted) :: rest =>
    if c = ']' && !quoted && !first then some ([], rest)
    else
      let named := if c = '[' && !quoted then class? rest else none
      match named with
      | some (inside, rest) =>
        (members fuel false rest).map fun (more, after) => (.named inside :: more, after)
      | none =>
        match rest with
        | ('-', false) :: (d, closes) :: after =>
          if d = ']' && !closes then
            (members fuel false rest).map fun (more, after) => (.range c c :: more, after)
          else (members fuel false after).map fun (more, after) => (.range c d :: more, after)
        | _ => (members fuel false rest).map fun (more, after) => (.range c c :: more, after)

/-- The items of a field; `fuel` is at least its length. -/
def items : (fuel : Nat) → Field → List Wildcard
  | 0, _ => []
  | _, [] => []
  | fuel + 1, (c, true) :: rest => sign c :: items fuel rest
  | fuel + 1, (c, false) :: rest =>
    if c = '*' then any :: items fuel rest
    else if c = '?' then one :: items fuel rest
    else if c = '[' then
      let (negated, body) :=
        match rest with
        | ('!', false) :: body => (true, body)
        | body => (false, body)
      match members (body.length + 1) true body with
      | some (found, after) => bracket negated found :: items fuel after
      | none => sign c :: items fuel rest
    else sign c :: items fuel rest

/-- The items of a field. -/
def ofField (field : Field) : List Wildcard :=
  let field := field.unescaped
  items field.length field

/-- Whether an item stands for more than itself. -/
def isOpen : Wildcard → Bool
  | sign _ => false
  | _ => true

/-- Whether an item that stands for one sign stands for this one. -/
def acceptsSign (c : Char) : Wildcard → Bool
  | sign d => c = d
  | one => true
  | any => false
  | bracket negated found =>
    negated != found.any fun
      | .range low high => order low ≤ order c && order c ≤ order high
      | .named inside => inside c

/-- The longest of several rests of a text, and all that are shorter. -/
def tails : List Char → List (List Char)
  | [] => [[]]
  | c :: text => (c :: text) :: tails text

/-- The rests of a text that may be left after an item, if these were left before it,
longest first. -/
def move (rests : List (List Char)) : Wildcard → List (List Char)
  | any =>
    match rests with
    | longest :: _ => tails longest
    | [] => []
  | item => rests.filterMap fun
    | c :: rest => if item.acceptsSign c then some rest else none
    | [] => none

/-- The rests of a text that may be left after all items, longest first. -/
def rests (items : List Wildcard) (text : List Char) : List (List Char) :=
  items.foldl move [text]

/-- Whether a text is matched as a whole. -/
def accepts (items : List Wildcard) (text : List Char) : Bool :=
  (rests items text).any List.isEmpty

/-- A text without its longest or shortest start that is matched. -/
def cutStart (longest : Bool) (items : List Wildcard) (text : List Char) : List Char :=
  let found := rests items text
  ((if longest then found.getLast? else found.head?)).getD text

/-- A text without its longest or shortest end that is matched. -/
def cutEnd (longest : Bool) (items : List Wildcard) (text : List Char) : List Char :=
  let ends := (tails text).filter (accepts items)
  match if longest then ends.head? else ends.getLast? with
  | some found => text.take (text.length - found.length)
  | none => text

end Wildcard

end StyleTokens.Shell

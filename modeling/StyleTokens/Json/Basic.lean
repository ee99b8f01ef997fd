/-
JSON documents.

* `Json` — a document as a tree, with the members of an object in the order in
  which they stand, repeated names included;
* `Json.sorted` — the document with all members sorted by name.

Design notes: `integer` is a number written as digits alone that 64 bits hold;
everything else, `-0` included, is `real` and kept as a decimal, so that a number
too great for any use does no harm where it is not used.  A document may be well formed
and still hold text that no string denotes, half of a surrogate pair; such a
string, or an object with such a name, is `unreadable`.
-/
namespace StyleTokens

/-- A JSON document. -/
inductive Json
  | null
  | bool (value : Bool)
  | integer (value : Int)
  /-- The number `digits * 10 ^ scale`, negated if it is `negative`. -/
  | real (negative : Bool) (digits : Nat) (scale : Int)
  | string (value : String)
  | array (items : List Json)
  | object (members : List (String × Json))
  | unreadable
  deriving Inhabited

namespace Json

/-- A natural number. -/
def ofNat (n : Nat) : Json :=
  integer n

/-- A list of strings. -/
def strings (values : List String) : Json :=
  array (values.map string)

/-- A value that may be missing. -/
def nullable {α : Type} (encode : α → Json) : Option α → Json
  | none => null
  | some value => encode value

/-- The member of a name; of several, the last. -/
def member? (name : String) : Json → Option Json
  | object members => members.reverse.lookup name
  | _ => none

/-- Adds a member to a list sorted by name, in place of one of the same name. -/
def insertMember (name : String) (value : Json) : List (String × Json) → List (String × Json)
  | [] => [(name, value)]
  | (other, old) :: members =>
    if name = other then (name, value) :: members
    else if name < other then (name, value) :: (other, old) :: members
    else (other, old) :: insertMember name value members

mutual

/-- The document with the members of every object sorted by name; of repeated
members the last stays. -/
def sorted : Json → Json
  | array items => array (sortedItems items)
  | object members => object (sortedMembers [] members)
  | other => other

/-- `sorted` for the items of an array. -/
def sortedItems : List Json → List Json
  | [] => []
  | item :: items => item.sorted :: sortedItems items

/-- `sorted` for members, added one by one to those sorted so far. -/
def sortedMembers (done : List (String × Json)) : List (String × Json) → List (String × Json)
  | [] => done
  | (name, value) :: members => sortedMembers (insertMember name value.sorted done) members

end

end Json

end StyleTokens

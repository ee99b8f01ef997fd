/-
From JSON documents to values of a type.

A record is given as an object or as an array of its fields in order.  Members
of an object that are no fields do not matter; a field given twice is an error.

* `Json.Record` — the fields of a record, as far as they are given;
* `Record.required`, `Record.nullable`, `Record.withDefault` — one field, by
  what its absence means;
* `Json.plain?` — a document free of what no value can hold, with names in order
  and unique.
-/
import StyleTokens.Binary64
import StyleTokens.Count
import StyleTokens.Json.Basic

namespace StyleTokens.Json

/-- The value of a document, or why it has none of the type. -/
abbrev Decoder (α : Type) := Json → Except String α

/-- A string. -/
def asString : Decoder String
  | string value => return value
  | _ => throw "expected a string"

/-- A truth value. -/
def asBool : Decoder Bool
  | bool value => return value
  | _ => throw "expected a boolean"

/-- An integer between two bounds, `high` excluded. -/
def asInteger (low high : Int) : Decoder Int
  | integer value =>
    if low ≤ value && value < high then return value else throw "integer out of range"
  | _ => throw "expected an integer"

/-- A natural number of at most 64 bits. -/
def asNat : Decoder Nat := fun document =>
  return (← asInteger 0 Count.bound document).toNat

/-- A list. -/
def asList {α : Type} (decode : Decoder α) : Decoder (List α)
  | array items => items.mapM decode
  | _ => throw "expected an array"

/-- A value or null. -/
def asOption {α : Type} (decode : Decoder α) : Decoder (Option α)
  | null => return none
  | document => some <$> decode document

/-- A name for a value: the name alone, or an object with it for the only member,
which is null. -/
def asName {α : Type} (ofName? : String → Option α) : Decoder α := fun document =>
  let name? :=
    match document with
    | string name => some name
    | object [(name, null)] => some name
    | _ => none
  match name?.bind ofName? with
  | some value => return value
  | none => throw "unknown name"

/-- A map from names, in order of the names; of a repeated name the last stays. -/
def asMap {α : Type} (decode : Decoder α) : Decoder (List (String × α))
  | object members => do
    let values ← members.mapM fun (name, value) => return (name, ← decode value)
    return values.foldl (fun done (name, value) => insert name value done) []
  | _ => throw "expected an object"
where
  insert (name : String) (value : α) : List (String × α) → List (String × α)
    | [] => [(name, value)]
    | (other, old) :: rest =>
      if name = other then (name, value) :: rest
      else if name < other then (name, value) :: (other, old) :: rest
      else (other, old) :: insert name value rest

/-- The fields of a record, in order, with the values given for them. -/
structure Record where
  fields : List (String × Option Json)
  /-- Whether the values stand in an array. -/
  positional : Bool

/-- The only value of a name, if any. -/
def single? (name : String) (members : List (String × Json)) : Except String (Option Json) :=
  match members.filter (·.1 == name) with
  | [] => return none
  | [(_, value)] => return some value
  | _ => throw ("duplicate field " ++ name)

/-- A document as a record with these fields. -/
def asRecord (names : List String) : Decoder Record
  | object members => do
    let fields ← names.mapM fun name => return (name, ← single? name members)
    return ⟨fields, false⟩
  | array items =>
    if items.length > names.length then throw "too many fields"
    else
      let values := items.map some ++ List.replicate (names.length - items.length) none
      return ⟨names.zip values, true⟩
  | _ => throw "expected an object"

namespace Record

/-- The value given for a field. -/
def given? (record : Record) (name : String) : Option Json :=
  (record.fields.lookup name).join

/-- A field that has to be given. -/
def required {α : Type} (record : Record) (name : String) (decode : Decoder α) :
    Except String α :=
  match record.given? name with
  | some value => decode value
  | none => throw ("missing field " ++ name)

/-- A field that may be null, or absent where fields are named. -/
def nullable {α : Type} (record : Record) (name : String) (decode : Decoder α) :
    Except String (Option α) :=
  match record.given? name with
  | some value => asOption decode value
  | none => if record.positional then throw ("missing field " ++ name) else return none

/-- A field that has a value of its own when it is not given. -/
def withDefault {α : Type} (record : Record) (name : String) (default : α)
    (decode : Decoder α) : Except String α :=
  match record.given? name with
  | some value => decode value
  | none => return default

end Record

mutual

/-- The document with sorted and unique names, if it nests at most `depth` levels
deep and holds neither unreadable text nor a number out of range. -/
def plain? (depth : Nat) : Json → Option Json
  | real negative digits scale =>
    if (Binary64.ofDecimal? digits scale).isSome then some (.real negative digits scale) else none
  | array items => if depth = 0 then none else (plainItems? (depth - 1) items).map array
  | object members => if depth = 0 then none else (plainMembers? (depth - 1) [] members).map object
  | unreadable => none
  | other => some other

/-- `plain?` for the items of an array. -/
def plainItems? (depth : Nat) : List Json → Option (List Json)
  | [] => some []
  | item :: items => do return (← item.plain? depth) :: (← plainItems? depth items)

/-- `plain?` for members, added one by one to those done. -/
def plainMembers? (depth : Nat) (done : List (String × Json)) :
    List (String × Json) → Option (List (String × Json))
  | [] => some done
  | (name, value) :: members => do
    plainMembers? depth (insertMember name (← value.plain? depth) done) members

end

/-- Levels of nesting that a document may have when it is taken as a whole. -/
def depthLimit : Nat := 127

end StyleTokens.Json

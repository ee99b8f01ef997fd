/-
The table of tokens.

A table is built once from its entries and then only read.  Its keys are a
category and the key of a literal (`Literal.key`), and no key stands twice, so
the order of the entries never decides a lookup.

* `TokenTable.ofEntries` — the table of a list of entries, or the first entry
  that spoils it;
* `TokenTable.lookup?` — the token of a literal under a category;
* `TokenTable.counts` — the number of entries per category.
-/
import StyleTokens.Fault
import StyleTokens.Literal

namespace StyleTokens

/-- A literal of a category and the token that stands for it. -/
structure TokenEntry where
  literal : String
  category : Category
  token : String
  deriving DecidableEq, Repr, Inhabited

namespace TokenEntry

/-- The key under which the entry is found. -/
def key (entry : TokenEntry) : Category × List Char :=
  (entry.category, Literal.key entry.category.kind entry.literal.toList)

/-- Whether the literal or the token is blank. -/
def isBlank (entry : TokenEntry) : Bool :=
  Text.allBlank entry.literal.toList || Text.allBlank entry.token.toList

end TokenEntry

/-- Tokens by category and key of the literal. -/
structure TokenTable where
  rows : List ((Category × List Char) × String)
  distinct : (rows.map Prod.fst).Nodup
  deriving Repr

namespace TokenTable

/-- The table without entries. -/
def empty : TokenTable :=
  ⟨[], List.nodup_nil⟩

instance : Inhabited TokenTable := ⟨empty⟩

/-- The table with one more entry. -/
def insert? (table : TokenTable) (entry : TokenEntry) : Except Fault TokenTable :=
  if entry.isBlank then
    throw (.invalidArgument (.emptyMapping entry.category))
  else if fresh : entry.key ∈ table.rows.map Prod.fst then
    throw (.duplicateMapping entry.category.label entry.literal)
  else
    return ⟨(entry.key, entry.token) :: table.rows, List.nodup_cons.2 ⟨fresh, table.distinct⟩⟩

/-- The table of a list of entries. -/
def ofEntries (entries : List TokenEntry) : Except Fault TokenTable :=
  entries.foldlM insert? empty

/-- The token of a literal under a category. -/
def lookup? (table : TokenTable) (category : Category) (literal : List Char) : Option String :=
  table.rows.lookup (category, Literal.key category.kind literal)

/-- Number of entries. -/
def size (table : TokenTable) : Nat :=
  table.rows.length

/-- The categories that have entries, with the number of their entries. -/
def counts (table : TokenTable) : List (Category × Nat) :=
  (Category.all.map fun c => (c, (table.rows.filter (·.1.1 == c)).length)).filter (·.2 ≠ 0)

end TokenTable

end StyleTokens

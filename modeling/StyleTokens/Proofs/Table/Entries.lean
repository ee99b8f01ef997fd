/-
The table of a list of entries.

A list makes a table unless one of its entries is blank or two of them have one key,
and then the table has a row for each entry and no other row.  So a lookup finds the
entries and nothing else, whatever their order and however their literals are spelled.

* `AreEntries` — entries that a table can be made of;
* `ofEntries_eq_ok_iff` — when a list makes a table, and which one;
* `lookup?_eq_some_iff` — a lookup finds the rows of a table;
* `Holds` — a table that is exactly a list of entries;
* `ofEntries_exact` — the table of a list is exactly this list, in any order.
-/
import Mathlib.Data.List.Nodup
import Mathlib.Data.List.Perm.Basic
import StyleTokens.Count
import StyleTokens.TokenTable

namespace StyleTokens

namespace TokenTable

open Text

variable {table : TokenTable}

/-- Entries without a blank literal or token, no two of which have one key under one
category. -/
structure AreEntries (entries : List TokenEntry) : Prop where
  solid : ∀ entry ∈ entries,
    allBlank entry.literal.toList = false ∧ allBlank entry.token.toList = false
  distinct : entries.Pairwise fun a b => a.category = b.category →
    Literal.key a.category.kind a.literal.toList ≠ Literal.key b.category.kind b.literal.toList

/-- Two tables are the same if their rows are. -/
theorem ext_rows {other : TokenTable} (h : table.rows = other.rows) : table = other := by
  cases table
  cases other
  cases h
  rfl

/-- When a table takes one more entry. -/
theorem insert?_eq_ok_iff {entry : TokenEntry} {wider : TokenTable} :
    table.insert? entry = .ok wider ↔ entry.isBlank = false ∧
      entry.key ∉ table.rows.map Prod.fst ∧ wider.rows = (entry.key, entry.token) :: table.rows := by
  rw [insert?]
  split
  · next hblank => simp [hblank]
  · next hblank =>
    split
    · next hold => simp [hold]
    · next hfresh =>
      constructor
      · intro h
        cases h
        exact ⟨Bool.eq_false_iff.2 hblank, hfresh, rfl⟩
      · rintro ⟨-, -, hrows⟩
        exact congrArg Except.ok (ext_rows hrows.symm)

/-- When a table takes a list of entries. -/
theorem foldlM_insert?_eq_ok_iff {wider : TokenTable} (entries : List TokenEntry) :
    entries.foldlM insert? table = .ok wider ↔
      (∀ entry ∈ entries, entry.isBlank = false) ∧
      (entries.map TokenEntry.key ++ table.rows.map Prod.fst).Nodup ∧
      wider.rows = (entries.map fun entry => (entry.key, entry.token)).reverse ++ table.rows := by
  induction entries generalizing table with
  | nil =>
    rw [List.foldlM_nil]
    constructor
    · intro h
      obtain rfl : table = wider := Except.ok.inj h
      exact ⟨by simp, table.distinct, rfl⟩
    · rintro ⟨-, -, hrows⟩
      exact congrArg Except.ok (ext_rows hrows.symm)
  | cons entry entries ih =>
    -- The key of the entry may stand before the later ones or behind them.
    have hkeys : ∀ next : TokenTable, next.rows = (entry.key, entry.token) :: table.rows →
        ((entries.map TokenEntry.key ++ next.rows.map Prod.fst).Nodup ↔
          ((entry :: entries).map TokenEntry.key ++ table.rows.map Prod.fst).Nodup) := by
      intro next hrows
      rw [hrows, List.map_cons, List.map_cons]
      exact List.perm_middle.nodup_iff
    rw [List.foldlM_cons, List.forall_mem_cons]
    constructor
    · intro h
      obtain ⟨next, hnext, h⟩ : ∃ next, table.insert? entry = .ok next ∧
          entries.foldlM insert? next = .ok wider := by
        cases hnext : table.insert? entry with
        | error fault =>
          rw [hnext] at h
          cases h
        | ok next =>
          rw [hnext] at h
          exact ⟨next, rfl, h⟩
      obtain ⟨hsolid, -, hrows⟩ := insert?_eq_ok_iff.1 hnext
      obtain ⟨hsolids, hnodup, hwider⟩ := ih.1 h
      refine ⟨⟨hsolid, hsolids⟩, (hkeys next hrows).1 hnodup, ?_⟩
      rw [hwider, hrows]
      simp
    · rintro ⟨⟨hsolid, hsolids⟩, hnodup, hwider⟩
      have hfresh : entry.key ∉ table.rows.map Prod.fst := by
        rw [List.map_cons, List.cons_append, List.nodup_cons, List.mem_append, not_or] at hnodup
        exact hnodup.1.2
      have hdistinct : (((entry.key, entry.token) :: table.rows).map Prod.fst).Nodup :=
        List.nodup_cons.2 ⟨hfresh, table.distinct⟩
      have hnext : table.insert? entry = .ok ⟨_, hdistinct⟩ :=
        insert?_eq_ok_iff.2 ⟨hsolid, hfresh, rfl⟩
      rw [hnext]
      refine ih.2 ⟨hsolids, (hkeys _ rfl).2 hnodup, ?_⟩
      rw [hwider]
      simp

theorem areEntries_iff {entries : List TokenEntry} : AreEntries entries ↔
    (∀ entry ∈ entries, entry.isBlank = false) ∧ (entries.map TokenEntry.key).Nodup := by
  have hkey : ∀ a b : TokenEntry, a.key ≠ b.key ↔ (a.category = b.category →
      Literal.key a.category.kind a.literal.toList ≠
        Literal.key b.category.kind b.literal.toList) := by
    intro a b
    rw [TokenEntry.key, TokenEntry.key, ne_eq, Prod.mk.injEq, not_and]
  rw [List.Nodup, List.pairwise_map]
  simp only [hkey, TokenEntry.isBlank, Bool.or_eq_false_iff]
  exact ⟨fun h => ⟨h.solid, h.distinct⟩, fun h => ⟨h.1, h.2⟩⟩

instance {entries : List TokenEntry} : Decidable (AreEntries entries) :=
  decidable_of_iff _ areEntries_iff.symm

/-- When a list of entries makes a table, and which rows this table has. -/
theorem ofEntries_eq_ok_iff {entries : List TokenEntry} : ofEntries entries = .ok table ↔
    AreEntries entries ∧
      table.rows = (entries.map fun entry => (entry.key, entry.token)).reverse := by
  rw [ofEntries, foldlM_insert?_eq_ok_iff, areEntries_iff, and_assoc]
  simp [empty]

/-- A list makes a table if its entries allow for one. -/
theorem exists_ofEntries_iff {entries : List TokenEntry} :
    (∃ table, ofEntries entries = .ok table) ↔ AreEntries entries := by
  refine ⟨fun ⟨table, h⟩ => (ofEntries_eq_ok_iff.1 h).1, fun h => ?_⟩
  have hnodup : ((entries.map fun entry => (entry.key, entry.token)).reverse.map
      Prod.fst).Nodup := by
    rw [List.map_reverse, List.nodup_reverse, List.map_map]
    exact (areEntries_iff.1 h).2
  exact ⟨⟨_, hnodup⟩, ofEntries_eq_ok_iff.2 ⟨h, rfl⟩⟩

/-- The rows of a table are those of its entries, none of which is blank. -/
theorem exists_entry_of_ofEntries {entries : List TokenEntry} (h : ofEntries entries = .ok table)
    {row : (Category × List Char) × String} (hrow : row ∈ table.rows) :
    ∃ entry ∈ entries, entry.isBlank = false ∧ row = (entry.key, entry.token) := by
  obtain ⟨hentries, hrows⟩ := ofEntries_eq_ok_iff.1 h
  rw [hrows, List.mem_reverse] at hrow
  obtain ⟨entry, hentry, rfl⟩ := List.mem_map.1 hrow
  exact ⟨entry, hentry, (areEntries_iff.1 hentries).1 entry hentry, rfl⟩

/-! ### Lookups -/

/-- Where no key stands twice, a lookup finds what stands under a key. -/
theorem lookup_eq_some_iff_mem {α β : Type} [BEq α] [LawfulBEq α] {rows : List (α × β)}
    (h : (rows.map Prod.fst).Nodup) {key : α} {value : β} :
    rows.lookup key = some value ↔ (key, value) ∈ rows := by
  induction rows with
  | nil => simp
  | cons row rows ih =>
    obtain ⟨other, first⟩ := row
    obtain ⟨hfresh, hrest⟩ := List.nodup_cons.1 h
    rw [List.lookup_cons, List.mem_cons, Prod.mk.injEq]
    cases hkey : key == other with
    | true =>
      obtain rfl := beq_iff_eq.1 hkey
      have hno : (key, value) ∉ rows := fun hm => hfresh (List.mem_map.2 ⟨_, hm, rfl⟩)
      simp [hno, eq_comm]
    | false => simp [beq_eq_false_iff_ne.1 hkey, ih hrest]

/-- A lookup finds the rows of a table. -/
theorem lookup?_eq_some_iff {category : Category} {literal : List Char} {token : String} :
    table.lookup? category literal = some token ↔
      ((category, Literal.key category.kind literal), token) ∈ table.rows :=
  lookup_eq_some_iff_mem table.distinct

/-! ### Counts -/

/-- The rows of all categories are all rows. -/
theorem total_by_category (rows : List ((Category × List Char) × String)) :
    Count.total (Category.all.map fun c => (rows.filter (·.1.1 == c)).length) = rows.length := by
  induction rows with
  | nil => rfl
  | cons row rows ih =>
    simp only [Category.all, List.map_cons, List.map_nil, Count.total] at ih ⊢
    obtain ⟨⟨category, key⟩, token⟩ := row
    cases category <;> simp <;> omega

theorem mem_counts_iff {category : Category} {count : Nat} : (category, count) ∈ table.counts ↔
    0 < count ∧ count = (table.rows.filter (·.1.1 == category)).length := by
  simp only [counts, List.mem_filter, List.mem_map, Prod.mk.injEq, decide_eq_true_eq,
    Nat.pos_iff_ne_zero]
  constructor
  · rintro ⟨⟨_, -, rfl, rfl⟩, hpos⟩
    exact ⟨hpos, rfl⟩
  · rintro ⟨hpos, rfl⟩
    exact ⟨⟨category, Category.mem_all category, rfl, rfl⟩, hpos⟩

theorem total_counts (table : TokenTable) :
    Count.total (table.counts.map Prod.snd) = table.size := by
  rw [counts, Count.total_filter fun count _ hzero => by simpa using hzero, List.map_map, size,
    ← total_by_category table.rows]
  rfl

/-! ### The table of a list -/

/-- A table that is exactly a list of entries. -/
structure Holds (table : TokenTable) (entries : List TokenEntry) : Prop where
  /-- A lookup finds the token of an entry whose literal has the same key. -/
  lookup_iff : ∀ category literal token, table.lookup? category literal = some token ↔
    ∃ entry ∈ entries, entry.category = category ∧
      Literal.key category.kind entry.literal.toList = Literal.key category.kind literal ∧
      entry.token = token
  size_eq : table.size = entries.length
  total_counts : Count.total (table.counts.map Prod.snd) = entries.length
  /-- Each category that has entries is counted with their number. -/
  counts_iff : ∀ category count, (category, count) ∈ table.counts ↔
    0 < count ∧ count = entries.countP (·.category = category)

theorem holds_of_ofEntries {entries : List TokenEntry} (h : ofEntries entries = .ok table) :
    table.Holds entries := by
  obtain ⟨-, hrows⟩ := ofEntries_eq_ok_iff.1 h
  have hsize : table.size = entries.length := by rw [size, hrows]; simp
  refine ⟨fun category literal token => ?_, hsize, by rw [total_counts, hsize],
    fun category count => ?_⟩
  · rw [lookup?_eq_some_iff, hrows, List.mem_reverse, List.mem_map]
    simp only [TokenEntry.key, Prod.mk.injEq]
    constructor
    · rintro ⟨entry, hentry, ⟨rfl, hkey⟩, htoken⟩
      exact ⟨entry, hentry, rfl, hkey, htoken⟩
    · rintro ⟨entry, hentry, rfl, hkey, htoken⟩
      exact ⟨entry, hentry, ⟨rfl, hkey⟩, htoken⟩
  · rw [mem_counts_iff, ← List.countP_eq_length_filter, hrows, List.countP_reverse, List.countP_map]
    rfl

theorem AreEntries.perm {entries other : List TokenEntry} (h : AreEntries entries)
    (hperm : entries.Perm other) : AreEntries other := by
  rw [areEntries_iff] at h ⊢
  exact ⟨fun entry he => h.1 entry (hperm.mem_iff.2 he), (hperm.map _).nodup_iff.1 h.2⟩

/-- **The table of a list is exactly the list.**  Entries make a table just if none of them is
blank and no two of a category have literals with one key.  Then a lookup finds the
token of the entry with the same key and nothing else, there are as many entries as are
counted, by category and altogether, and none of this depends on the order of the list. -/
theorem ofEntries_exact (entries : List TokenEntry) :
    ((∃ table, ofEntries entries = .ok table) ↔ AreEntries entries) ∧
    (∀ table, ofEntries entries = .ok table → table.Holds entries) ∧
    ∀ other, entries.Perm other →
      ((∃ table, ofEntries other = .ok table) ↔ ∃ table, ofEntries entries = .ok table) ∧
      ∀ table table', ofEntries entries = .ok table → ofEntries other = .ok table' →
        ∀ category literal, table'.lookup? category literal = table.lookup? category literal := by
  refine ⟨exists_ofEntries_iff, fun table => holds_of_ofEntries, fun other hperm => ⟨?_, ?_⟩⟩
  · rw [exists_ofEntries_iff, exists_ofEntries_iff]
    exact ⟨fun h => h.perm hperm.symm, fun h => h.perm hperm⟩
  · intro table table' h h' category literal
    refine Option.ext fun token => ?_
    rw [(holds_of_ofEntries h').lookup_iff, (holds_of_ofEntries h).lookup_iff]
    simp only [hperm.mem_iff]

/-- Entries with blanks, capitals and without a unit. -/
def respelled : List TokenEntry := [
  ⟨" 16PX ", .spacing, "var(--gap)"⟩,
  ⟨"16", .size, "var(--icon)"⟩,
  ⟨"RGBA(0, 0, 0, .1)", .color, "var(--shade)"⟩]

/-- The table of respelled entries: what it finds, from whichever end it is made, and an
entry that would stand twice. -/
theorem ofEntries_respelled : ∃ table table', ofEntries respelled = .ok table ∧
    ofEntries respelled.reverse = .ok table' ∧
    (∀ category literal, table'.lookup? category literal = table.lookup? category literal) ∧
    table.size = 3 ∧
    table.lookup? .spacing "16rem".toList = some "var(--gap)" ∧
    table.lookup? .color "rgba(0,0,0,.1)".toList = some "var(--shade)" ∧
    ¬ ∃ wider, ofEntries (⟨"+16px", .size, "var(--odd)"⟩ :: respelled) = .ok wider := by
  obtain ⟨hmade, hholds, horder⟩ := ofEntries_exact respelled
  obtain ⟨table, h⟩ := hmade.2 (by decide +kernel)
  obtain ⟨hmade', hsame⟩ := horder _ (List.reverse_perm respelled).symm
  obtain ⟨table', h'⟩ := hmade'.2 ⟨table, h⟩
  refine ⟨table, table', h, h', hsame table table' h h', (hholds table h).size_eq, ?_, ?_, ?_⟩
  · exact ((hholds table h).lookup_iff _ _ _).2 (by decide +kernel)
  · exact ((hholds table h).lookup_iff _ _ _).2 (by decide +kernel)
  · exact fun hwider => absurd ((ofEntries_exact _).1.1 hwider) (by decide +kernel)

end TokenTable

end StyleTokens

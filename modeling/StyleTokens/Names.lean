/-
Finite sets of names.

A set is kept as the strictly ascending list of its names, in the order of the
bytes of their UTF-8 form.

* `Names.ofList` — the names of a list, in whatever order and however often;
* `mem_ofList` — nothing is lost or added;
* `Names.ext_mem` — the names determine the list.
-/
namespace StyleTokens

/-- Names in strictly ascending order. -/
structure Names where
  toList : List String
  ascending : toList.Pairwise (· < ·)
  deriving Repr

namespace Names

/-- A list with one more name at its place. -/
def insertSorted (name : String) : List String → List String
  | [] => [name]
  | other :: names =>
    if name < other then name :: other :: names
    else if name = other then other :: names
    else other :: insertSorted name names

theorem mem_insertSorted {name other : String} {names : List String} :
    other ∈ insertSorted name names ↔ other = name ∨ other ∈ names := by
  induction names with
  | nil => simp [insertSorted]
  | cons head names ih =>
    unfold insertSorted
    split
    · simp
    · split
      · next h => subst h; simp
      · simp [ih, or_left_comm]

theorem ascending_insertSorted (name : String) {names : List String}
    (h : names.Pairwise (· < ·)) : (insertSorted name names).Pairwise (· < ·) := by
  induction names with
  | nil => simp [insertSorted]
  | cons head names ih =>
    have ⟨hh, ht⟩ := List.pairwise_cons.1 h
    unfold insertSorted
    split
    · next hlt =>
      refine List.pairwise_cons.2 ⟨fun other hm => ?_, h⟩
      rcases List.mem_cons.1 hm with rfl | hm
      · exact hlt
      · exact String.lt_trans hlt (hh other hm)
    · split
      · exact h
      · next hlt hne =>
        refine List.pairwise_cons.2 ⟨fun other hm => ?_, ih ht⟩
        rcases mem_insertSorted.1 hm with rfl | hm
        · exact (Std.lt_trichotomy other head).resolve_left hlt |>.resolve_left hne
        · exact hh other hm

/-- The set of no names. -/
def empty : Names :=
  ⟨[], List.Pairwise.nil⟩

instance : Inhabited Names := ⟨empty⟩

/-- The set with one more name. -/
def insert (names : Names) (name : String) : Names :=
  ⟨insertSorted name names.toList, ascending_insertSorted name names.ascending⟩

/-- The set of the names of a list. -/
def ofList (names : List String) : Names :=
  names.foldl insert empty

/-- Number of names. -/
def size (names : Names) : Nat :=
  names.toList.length

@[simp] theorem mem_insert {names : Names} {name other : String} :
    other ∈ (names.insert name).toList ↔ other = name ∨ other ∈ names.toList :=
  mem_insertSorted

theorem mem_ofList {names : List String} {name : String} :
    name ∈ (ofList names).toList ↔ name ∈ names := by
  suffices ∀ start : Names,
      name ∈ (names.foldl insert start).toList ↔ name ∈ start.toList ∨ name ∈ names by
    simpa [ofList, empty] using this empty
  induction names with
  | nil => simp
  | cons head names ih => intro start; simp [ih, or_assoc, or_left_comm, or_comm]

theorem ext_mem {a b : Names} (h : ∀ name, name ∈ a.toList ↔ name ∈ b.toList) : a = b := by
  obtain ⟨as, ha⟩ := a
  obtain ⟨bs, hb⟩ := b
  suffices as = bs by subst this; rfl
  replace h : ∀ name, name ∈ as ↔ name ∈ bs := h
  induction as generalizing bs with
  | nil => exact (List.eq_nil_iff_forall_not_mem.2 fun name hm => by simpa using (h name).2 hm).symm
  | cons x as ih =>
    match bs with
    | [] => simpa using (h x).1 (by simp)
    | y :: bs =>
      have ⟨hx, hta⟩ := List.pairwise_cons.1 ha
      have ⟨hy, htb⟩ := List.pairwise_cons.1 hb
      have hxy : x = y := by
        rcases List.mem_cons.1 ((h x).1 (by simp)) with rfl | hxb
        · rfl
        · rcases List.mem_cons.1 ((h y).2 (by simp)) with hyx | hya
          · exact hyx.symm
          · exact absurd (String.lt_trans (hx y hya) (hy x hxb)) (String.lt_irrefl x)
      subst hxy
      congr 1
      refine ih hta bs htb fun name => ⟨fun hm => ?_, fun hm => ?_⟩
      · rcases List.mem_cons.1 ((h name).1 (List.mem_cons_of_mem _ hm)) with rfl | hm'
        · exact absurd (hx name hm) (String.lt_irrefl name)
        · exact hm'
      · rcases List.mem_cons.1 ((h name).2 (List.mem_cons_of_mem _ hm)) with rfl | hm'
        · exact absurd (hy name hm) (String.lt_irrefl name)
        · exact hm'

end Names

end StyleTokens

/-
The path without its last part.

* `isAbsolute_iff_head?` — a path is absolute when the root is its first part;
* `texts_sublist` — the texts of the parts are among the pieces of the path;
* `stretches_ofParts` — the pieces of a path with given parts are the texts of those;
* `tidy_parent` — the parent has no dots at its end;
* `parent_spec` — it leads along all moves but the last one.
-/
import StyleTokens.Proofs.Path.Pieces

namespace StyleTokens.Path

variable {path : Path} {front : List Part} {name : String} {before : List String}

theorem part?_ne_root (piece : List Char) : part? piece ≠ some .root := by
  rw [part?]
  split
  · simp
  · split <;> simp

/-- A path is absolute when the root is its first part. -/
theorem isAbsolute_iff_head? : path.isAbsolute = true ↔ path.parts.head? = some .root := by
  rw [parts]
  split
  · next h => simp [h]
  · next h =>
    have hnamed : ((pieces path.text.toList).filterMap part?).head? ≠ some .root := by
      intro hroot
      obtain ⟨piece, -, hpart⟩ := List.mem_filterMap.1 (List.mem_of_mem_head? hroot)
      exact part?_ne_root piece hpart
    split
    · simp [h]
    · exact ⟨fun habs => absurd habs h, fun hroot => absurd hroot hnamed⟩

/-- The texts of named parts are among the pieces. -/
theorem named_sublist (all : List (List Char)) :
    ((all.filterMap part?).map Part.text).Sublist (all.map String.ofList) := by
  induction all with
  | nil => exact .slnil
  | cons piece all ih =>
    have htext := text_part? piece
    rw [List.filterMap_cons, List.map_cons]
    cases hp : part? piece with
    | none => exact ih.cons _
    | some part =>
      rw [hp, Option.map_some] at htext
      split at htext
      · cases htext
      · rw [List.map_cons, Option.some.inj htext]
        exact ih.cons_cons _

theorem texts_sublist (path : Path) : (path.parts.map Part.text).Sublist path.stretches := by
  rw [parts, stretches]
  split
  · next h =>
    obtain ⟨rest, hrest⟩ := isAbsolute_iff.1 h
    rw [hrest, pieces, if_pos rfl]
    exact (named_sublist (pieces rest)).cons_cons _
  · split
    · next h =>
      obtain ⟨rest, hrest⟩ := List.head?_eq_some_iff.1 h
      rw [hrest]
      exact (named_sublist rest).cons_cons _
    · exact named_sublist _

theorem slash_not_mem_of_mem_stretches {piece : String} (h : piece ∈ path.stretches) :
    '/' ∉ piece.toList := by
  obtain ⟨text, htext, rfl⟩ := List.mem_map.1 h
  rw [String.toList_ofList]
  exact slash_not_mem_of_mem_pieces htext

/-- The pieces of a path with given parts, when these are parts of another one. -/
theorem stretches_ofParts (hne : front ≠ []) (hroot : front ≠ [.root])
    (h : ∀ text ∈ front.map Part.text, '/' ∉ text.toList) :
    (ofParts front).stretches = front.map Part.text := by
  have htext : (ofParts front).text = "/".intercalate (front.map Part.text) := by
    rw [ofParts]
    exact hroot
  have hfree : ∀ text ∈ (front.map Part.text).map String.toList, '/' ∉ text := by
    intro text ht
    obtain ⟨piece, hp, rfl⟩ := List.mem_map.1 ht
    exact h piece hp
  rw [stretches, htext, String.toList_intercalate]
  show (pieces (['/'].intercalate _)).map String.ofList = _
  rw [pieces_join (by simpa using hne) hfree, List.map_map]
  simp [Function.comp_def]

/-- The moves among the texts of parts; a dot is none. -/
theorem filter_texts (all : List Part) :
    ((all.filter (· ≠ .here)).map Part.text).filter (fun piece => ¬ IsIdle piece) =
      (all.map Part.text).filter fun piece => ¬ IsIdle piece := by
  induction all with
  | nil => rfl
  | cons part all ih =>
    by_cases h : part = .here
    · subst h
      rw [List.filter_cons, if_neg (by simp), ih, List.map_cons, List.filter_cons,
        if_neg (by simp [IsIdle, Part.text])]
    · rw [List.filter_cons, if_pos (by simpa using h), List.map_cons, List.map_cons,
        List.filter_cons, List.filter_cons, ih]

theorem moves_eq_texts (path : Path) :
    path.moves = (path.parts.map Part.text).filter fun piece => ¬ IsIdle piece := by
  have hidle : path.moves.filter (fun piece => ¬ IsIdle piece) = path.moves := by
    rw [moves, List.filter_filter]
    simp
  rw [← filter_texts, texts_parts, List.filter_append, hidle]
  split <;> simp [IsIdle]

/-- A path that ends with a move has that for its last part. -/
theorem parts_of_ends (hs : path.stretches = before ++ [name]) (hi : ¬ IsIdle name) :
    ∃ front part, path.parts = front ++ [part] ∧ part.text = name := by
  obtain ⟨others, last, hpieces, -, hlast⟩ := List.map_eq_append_iff.1 hs
  obtain ⟨piece, rfl, rfl⟩ := List.map_eq_singleton_iff.1 hlast
  have htext := text_part? piece
  rw [if_neg hi] at htext
  obtain ⟨part, hpart, htext⟩ := Option.map_eq_some_iff.1 htext
  have hnamed : (pieces path.text.toList).filterMap part? = others.filterMap part? ++ [part] := by
    rw [hpieces, List.filterMap_append]
    simp [hpart]
  rw [parts, hnamed]
  split
  · exact ⟨.root :: _, part, rfl, htext⟩
  · split
    · exact ⟨.here :: _, part, rfl, htext⟩
    · exact ⟨_, part, rfl, htext⟩

/-- Pieces that are left out leave characters out. -/
theorem sublist_of_stretches {other : Path} (h : other.stretches.Sublist path.stretches) :
    other.text.toList.Sublist path.text.toList := by
  have hpieces (p : Path) : p.stretches.map String.toList = pieces p.text.toList := by
    simp [stretches, Function.comp_def]
  have hjoin := join_sublist (h.map String.toList)
  rwa [hpieces, hpieces, join_pieces, join_pieces] at hjoin

/-- A path is absolute when its first piece is empty and others follow. -/
theorem isAbsolute_iff_stretches :
    path.isAbsolute = true ↔ ∃ next rest, path.stretches = "" :: next :: rest := by
  rw [isAbsolute_iff, stretches]
  constructor
  · rintro ⟨rest, hrest⟩
    obtain ⟨piece, others, hpieces⟩ := List.exists_cons_of_ne_nil (pieces_ne_nil rest)
    rw [hrest, pieces, if_pos rfl, hpieces]
    exact ⟨_, _, rfl⟩
  · rintro ⟨next, rest, heq⟩
    cases htext : path.text.toList with
    | nil =>
      rw [htext] at heq
      cases heq
    | cons c text =>
      by_cases hc : c = '/'
      · exact ⟨text, by rw [hc]⟩
      · obtain ⟨piece, others, -, hpieces⟩ := pieces_cons_of_ne hc text
        rw [htext, hpieces, List.map_cons] at heq
        have hempty := (List.cons.inj heq).1
        simp at hempty

/-- Pieces stand for moves only. -/
theorem not_idle_of_mem_named {all : List (List Char)} {part : Part}
    (h : part ∈ all.filterMap part?) : ¬ IsIdle part.text := by
  obtain ⟨piece, -, hpart⟩ := List.mem_filterMap.1 h
  have htext := text_part? piece
  rw [hpart, Option.map_some] at htext
  split at htext
  · cases htext
  · next hidle => rwa [Option.some.inj htext]

/-- Only the root has an empty text. -/
theorem text_ne_empty {part : Part} (h : part ∈ path.parts) (hr : part ≠ .root) :
    part.text ≠ "" := by
  have hnamed (hmem : part ∈ (pieces path.text.toList).filterMap part?) : part.text ≠ "" :=
    fun he => not_idle_of_mem_named hmem (Or.inl he)
  rw [parts] at h
  split at h
  · exact (List.mem_cons.1 h).elim (fun he => absurd he hr) hnamed
  · split at h
    · rcases List.mem_cons.1 h with rfl | h
      · decide
      · exact hnamed h
    · exact hnamed h

/-- Behind the first part there are moves only. -/
theorem not_idle_of_mem_tail {part : Part} (h : part ∈ path.parts.tail) : ¬ IsIdle part.text := by
  rw [parts] at h
  split at h
  · exact not_idle_of_mem_named h
  · split at h
    · exact not_idle_of_mem_named h
    · exact not_idle_of_mem_named (List.mem_of_mem_tail h)

/-- A path with given parts is absolute when the root is the first of several. -/
theorem isAbsolute_ofParts (hne : front ≠ []) (hroot : front ≠ [.root])
    (hslash : ∀ text ∈ front.map Part.text, '/' ∉ text.toList)
    (hparts : ∀ part ∈ front, part ∈ path.parts) :
    (ofParts front).isAbsolute = true ↔ front.head? = some .root := by
  rw [isAbsolute_iff_stretches, stretches_ofParts hne hroot hslash]
  obtain ⟨first, others, rfl⟩ := List.exists_cons_of_ne_nil hne
  constructor
  · rintro ⟨next, rest, heq⟩
    by_cases hfirst : first = .root
    · rw [hfirst]
      rfl
    · exact absurd (List.cons.inj heq).1 (text_ne_empty (hparts first List.mem_cons_self) hfirst)
  · intro hfirst
    obtain rfl : first = .root := Option.some.inj hfirst
    obtain ⟨second, rest, rfl⟩ := List.exists_cons_of_ne_nil fun h : others = [] => hroot (h ▸ rfl)
    exact ⟨second.text, rest.map Part.text, rfl⟩

/-- A path without moves, or one that ends with its last move. -/
def Tidy (path : Path) : Prop :=
  path.moves = [] ∨ ∃ before last, path.stretches = before ++ [last] ∧ ¬ IsIdle last

/-- The parent has all parts but the last one, which is not the root. -/
theorem parts_of_parent {parent : Path} (h : path.parent? = some parent) :
    ∃ front part, path.parts = front ++ [part] ∧ part ≠ .root ∧ ofParts front = parent := by
  rw [parent?] at h
  split at h
  · cases h
  · cases h
  · next part rest hroot hreverse =>
    refine ⟨rest.reverse, part, ?_, hroot, Option.some.inj h⟩
    rw [← List.reverse_reverse path.parts, hreverse, List.reverse_cons]

/-- It has no dots at its end. -/
theorem tidy_parent {parent : Path} (h : path.parent? = some parent) : parent.Tidy := by
  obtain ⟨front, part, hparts, -, rfl⟩ := parts_of_parent h
  rcases List.eq_nil_or_concat front with rfl | ⟨before, last, rfl⟩
  · exact Or.inl rfl
  rw [List.concat_eq_append] at hparts ⊢
  by_cases hroot : before ++ [last] = [.root]
  · rw [hroot]
    exact Or.inl rfl
  have htexts := texts_sublist path
  rw [hparts, List.map_append] at htexts
  have hslash : ∀ text ∈ (before ++ [last]).map Part.text, '/' ∉ text.toList := fun text ht =>
    slash_not_mem_of_mem_stretches (htexts.mem (List.mem_append_left _ ht))
  have hstretches := stretches_ofParts (by simp) hroot hslash
  by_cases hi : IsIdle last.text
  · -- only the first part is no move
    rcases before with _ | ⟨first, before⟩
    · refine Or.inl ?_
      rw [moves, hstretches]
      simp [hi]
    · have hlast : last ∈ path.parts.tail := by
        rw [hparts]
        simp
      exact absurd hi (not_idle_of_mem_tail hlast)
  · exact Or.inr ⟨before.map Part.text, last.text, by simpa using hstretches, hi⟩

/-- A path without moves has the empty one for its parent, if it has one. -/
theorem parent_of_no_moves {parent : Path} (hm : path.moves = []) (h : path.parent? = some parent) :
    parent = ⟨""⟩ ∧ path.isAbsolute = false := by
  obtain ⟨front, part, hparts, hroot, rfl⟩ := parts_of_parent h
  -- a part behind another one would be a move
  have hfront : front = [] := by
    by_contra hne
    obtain ⟨first, others, hfirst⟩ := List.exists_cons_of_ne_nil hne
    have hpart : part ∈ path.parts.tail := by simp [hparts, hfirst]
    have hi : ¬ IsIdle part.text := not_idle_of_mem_tail hpart
    rw [moves_eq_texts, hparts] at hm
    simp [hi] at hm
  subst hfront
  refine ⟨rfl, Bool.eq_false_iff.2 fun habs => ?_⟩
  rw [isAbsolute_iff_head?, hparts] at habs
  exact hroot (Option.some.inj habs)

/-- A path that ends with a move has a parent. -/
theorem exists_parent (hs : path.stretches = before ++ [name]) (hi : ¬ IsIdle name) :
    ∃ parent, path.parent? = some parent := by
  obtain ⟨front, part, hparts, htext⟩ := parts_of_ends hs hi
  refine ⟨ofParts front, ?_⟩
  rw [parent?, hparts, List.reverse_append]
  cases part with
  | root => exact absurd (Or.inl htext.symm) hi
  | here | up | name text => simp

/-- **The parent leads along all moves but the last one.** -/
theorem parent_spec {parent : Path} (hs : path.stretches = before ++ [name]) (hi : ¬ IsIdle name)
    (h : path.parent? = some parent) :
    parent.isAbsolute = path.isAbsolute ∧ path.moves = parent.moves ++ [name] ∧
      parent.text.toList.Sublist path.text.toList := by
  obtain ⟨front, part, hparts, htext⟩ := parts_of_ends hs hi
  have hpart : part ≠ .root := by
    rintro rfl
    exact hi (Or.inl htext.symm)
  obtain rfl : ofParts front = parent := by
    rw [parent?, hparts, List.reverse_append] at h
    simpa [hpart] using h
  have habsolute : path.isAbsolute = true ↔ front.head? = some .root := by
    rw [isAbsolute_iff_head?, hparts]
    cases front <;> simp [hpart]
  have hmoves : path.moves =
      ((front.map Part.text).filter fun piece => ¬ IsIdle piece) ++ [name] := by
    rw [moves_eq_texts, hparts, List.map_append, List.filter_append]
    simp [htext, hi]
  have htexts := texts_sublist path
  rw [hparts, List.map_append] at htexts
  have hfront := (List.sublist_append_left _ _).trans htexts
  -- a single name has the empty path for its parent, and one behind the root the bare root;
  -- neither is written as its parts joined by slashes
  by_cases hne : front = []
  · subst hne
    have habs : path.isAbsolute = false := Bool.eq_false_iff.2 fun h => nomatch habsolute.1 h
    rw [habs, hmoves]
    exact ⟨rfl, rfl, List.nil_sublist _⟩
  by_cases hroot : front = [.root]
  · subst hroot
    have habs : path.isAbsolute = true := habsolute.2 rfl
    obtain ⟨rest, hrest⟩ := isAbsolute_iff.1 habs
    rw [habs, hmoves, hrest]
    exact ⟨rfl, rfl, (List.nil_sublist rest).cons_cons _⟩
  have hslash : ∀ text ∈ front.map Part.text, '/' ∉ text.toList :=
    fun text ht => slash_not_mem_of_mem_stretches (hfront.mem ht)
  have hstretches := stretches_ofParts hne hroot hslash
  refine ⟨?_, ?_, sublist_of_stretches (hstretches ▸ hfront)⟩
  · rw [Bool.eq_iff_iff, habsolute]
    exact isAbsolute_ofParts hne hroot hslash fun part hp =>
      hparts ▸ List.mem_append_left _ hp
  · rw [hmoves, moves, hstretches]

/-- The moves of a path that ends with one. -/
theorem moves_of_stretches (hs : path.stretches = before ++ [name]) (hi : ¬ IsIdle name) :
    path.moves = before.filter (fun piece => ¬ IsIdle piece) ++ [name] := by
  rw [Path.moves, hs, List.filter_append]
  simp [hi]

/-- The way of the parent, as it is in the path. -/
theorem filter_before (hs : path.stretches = before ++ [name]) (hi : ¬ IsIdle name)
    {moves : List String} (hm : path.moves = moves ++ [name]) :
    before.filter (fun piece => ¬ IsIdle piece) = moves :=
  (List.append_inj' ((moves_of_stretches hs hi).symm.trans hm) rfl).1

end StyleTokens.Path

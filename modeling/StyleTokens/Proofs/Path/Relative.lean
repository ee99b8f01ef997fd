/-
Paths as they are seen from a root.

An absolute path lies below a root when it makes the moves of the root first, and then it is
seen from there by the moves that are left.

* `parts_eq_iff` — the moves of an absolute path tell its parts;
* `moves_of_relativeTo?` — what is seen from a root without going up is below it;
* `exists_relativeTo?` — what is below a root is seen from there without going up;
* `Spelled.plain_eq`, `Spelled.clean` — a path in the form of the listings stays as it is, and
  has no dots.
-/
import StyleTokens.Proofs.Path.Below

namespace StyleTokens

/-- The part that a move stands for. -/
def Part.ofMove (move : String) : Part :=
  if move = ".." then .up else .name move

namespace Path

variable {path other root below : Path} {file piece : String} {base rest : List Part}

/-! ### Parts and moves -/

theorem part?_of_move {piece : List Char} (h : ¬ IsIdle (String.ofList piece)) :
    part? piece = some (.ofMove (String.ofList piece)) := by
  have hidle : ¬ (piece = [] ∨ piece = ['.']) := by
    rintro (rfl | rfl)
    · exact h (Or.inl rfl)
    · exact h (Or.inr rfl)
  have hup : piece = ['.', '.'] ↔ String.ofList piece = ".." := by
    rw [← String.toList_inj, String.toList_ofList]
    rfl
  rw [part?, if_neg (by simpa using hidle), Part.ofMove]
  by_cases he : piece = ['.', '.']
  · rw [if_pos he, if_pos (hup.1 he)]
  · rw [if_neg he, if_neg (mt hup.2 he)]

/-- The parts that pieces stand for are told by the moves among them. -/
theorem named_eq_moves (all : List (List Char)) :
    all.filterMap part? =
      ((all.map String.ofList).filter fun piece => ¬ IsIdle piece).map Part.ofMove := by
  induction all with
  | nil => rfl
  | cons piece all ih =>
    rw [List.filterMap_cons, List.map_cons, List.filter_cons, ih]
    by_cases hidle : IsIdle (String.ofList piece)
    · have hnone : part? piece = none := by
        have htext := text_part? piece
        rwa [if_pos hidle, Option.map_eq_none_iff] at htext
      rw [hnone, if_neg (by simpa using hidle)]
    · rw [part?_of_move hidle, if_pos (by simpa using hidle)]
      rfl

theorem parts_of_absolute (h : path.isAbsolute = true) :
    path.parts = .root :: path.moves.map Part.ofMove := by
  rw [parts, if_pos h, named_eq_moves]
  rfl

/-- **The moves of an absolute path tell its parts.** -/
theorem parts_eq_iff (h : path.isAbsolute = true) (ho : other.isAbsolute = true) :
    path.parts = other.parts ↔ path.moves = other.moves := by
  constructor
  · intro heq
    rw [moves_eq_texts, moves_eq_texts, heq]
  · intro heq
    rw [parts_of_absolute h, parts_of_absolute ho, heq]

/-- A part goes up when a move does. -/
theorem up_mem_parts_iff : Part.up ∈ path.parts ↔ ".." ∈ path.moves := by
  constructor
  · intro h
    rw [moves_eq_texts]
    exact List.mem_filter.2 ⟨List.mem_map.2 ⟨.up, h, rfl⟩, by simp [IsIdle]⟩
  · exact fun h => by_contra fun hno => ne_up_of_parts hno h

/-- The root is the first part only. -/
theorem root_not_mem_tail (path : Path) : Part.root ∉ path.parts.tail :=
  fun h => not_idle_of_mem_tail h (Or.inl rfl)

/-! ### Below a root -/

theorem way_append (base rest : List Part) : way false (base ++ rest) base = some rest := by
  induction base with
  | nil => cases rest <;> rfl
  | cons part base ih =>
    rw [List.cons_append, way, if_pos (by simp)]
    exact ih

/-- A path with the parts that come behind those of a root. -/
theorem ofParts_rest (hroot : root.isAbsolute = true) (h : path.parts = root.parts ++ rest) :
    (ofParts rest).isAbsolute = false ∧ path.moves = root.moves ++ (ofParts rest).moves := by
  have hmem : ∀ part ∈ rest, part ∈ path.parts := fun part hp => h ▸ List.mem_append_right _ hp
  have hroots : Part.root ∉ rest := by
    intro hm
    refine root_not_mem_tail path ?_
    rw [h, parts_of_absolute hroot, List.cons_append, List.tail_cons]
    exact List.mem_append_right _ hm
  have hmoves : path.moves =
      root.moves ++ (rest.map Part.text).filter fun piece => ¬ IsIdle piece := by
    rw [moves_eq_texts, h, List.map_append, List.filter_append, ← moves_eq_texts]
  by_cases hrest : rest = []
  · subst hrest
    exact ⟨rfl, hmoves⟩
  have hbare : rest ≠ [.root] := fun he => hroots (he ▸ List.mem_singleton_self _)
  have hslash : ∀ text ∈ rest.map Part.text, '/' ∉ text.toList := by
    intro text ht
    obtain ⟨part, hpart, rfl⟩ := List.mem_map.1 ht
    exact slash_not_mem_text (Or.inl (hmem part hpart))
  refine ⟨?_, ?_⟩
  · rw [Bool.eq_false_iff, ne_eq, isAbsolute_ofParts hrest hbare hslash hmem]
    exact fun hhead => hroots (List.mem_of_mem_head? hhead)
  · rw [hmoves]
    exact congrArg (root.moves ++ List.filter _ ·) (stretches_ofParts hrest hbare hslash).symm

variable (habs : path.isAbsolute = true) (hroot : root.isAbsolute = true)

include habs hroot

/-- **What is seen from a root without going up is below it.** -/
theorem moves_of_relativeTo? (h : path.relativeTo? root = some below)
    (hup : below.parts.head? ≠ some .up) :
    below.isAbsolute = false ∧ path.moves = root.moves ++ below.moves := by
  rw [relativeTo?, if_neg (by simp [habs, hroot])] at h
  obtain ⟨rest, hway, rfl⟩ := Option.map_eq_some_iff.1 h
  refine ofParts_rest hroot (way_eq_some (here_not_mem_parts hroot) hway fun hhead => hup ?_)
  -- a way that goes up at its start is a path that does
  obtain ⟨more, rfl⟩ := List.head?_eq_some_iff.1 hhead
  have hslash : ∀ text ∈ (Part.up :: more).map Part.text, '/' ∉ text.toList := by
    intro text ht
    obtain ⟨part, hpart, rfl⟩ := List.mem_map.1 ht
    exact slash_not_mem_text (mem_of_way hway hpart)
  exact head?_parts_of_up (stretches_ofParts (by simp) (by simp) hslash)

/-- **What is below a root is seen from there without going up.** -/
theorem exists_relativeTo? (hparts : Part.up ∉ path.parts) (hfront : root.moves <+: path.moves) :
    ∃ below, path.relativeTo? root = some below ∧ below.parts.head? ≠ some .up := by
  obtain ⟨more, hmore⟩ := hfront
  have hrest : path.parts = root.parts ++ more.map Part.ofMove := by
    rw [parts_of_absolute habs, parts_of_absolute hroot, ← hmore, List.map_append]
    rfl
  refine ⟨ofParts (more.map Part.ofMove), ?_, fun hhead => ?_⟩
  · rw [relativeTo?, if_neg (by simp [habs, hroot]), hrest, way_append]
    rfl
  · have hup := up_mem_parts_iff.1 (List.mem_of_mem_head? hhead)
    refine hparts (up_mem_parts_iff.2 ?_)
    rw [(ofParts_rest hroot hrest).2]
    exact List.mem_append_right _ hup

omit habs hroot

/-! ### The form of the listings -/

/-- A path in the form of the listings is its own plain form. -/
theorem Spelled.plain_eq (h : Spelled file) : plain ⟨file⟩ = file := by
  rw [plain, texts_parts]
  exact h.text_eq.symm

/-- **A path in the form of the listings has no dots**: no piece stays and none goes up. -/
theorem Spelled.clean (h : Spelled file) (hp : piece ∈ stretches ⟨file⟩) :
    piece ≠ "." ∧ piece ≠ ".." := by
  by_cases hmoves : isAbsolute ⟨file⟩ = true ∨ moves ⟨file⟩ ≠ []
  · have hstretches := stretches_plain ⟨file⟩ hmoves
    rw [h.plain_eq] at hstretches
    rw [hstretches] at hp
    rcases List.mem_append.1 hp with hp | hp
    · split at hp
      · rw [List.mem_singleton.1 hp]
        decide
      · cases hp
    · have hidle : ¬ IsIdle piece := by simpa using (List.mem_filter.1 hp).2
      exact ⟨fun he => hidle (Or.inr he), fun he => h.ne_up (he ▸ hp)⟩
  · obtain ⟨habs, hnone⟩ := not_or.1 hmoves
    have hempty : file = "" := by
      rw [← h.plain_eq, plain, texts_parts, if_neg habs, Decidable.not_not.1 hnone]
      rfl
    subst hempty
    obtain rfl : piece = "" := by simpa [stretches, pieces] using hp
    decide

end Path

end StyleTokens

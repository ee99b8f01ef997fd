/-
The place that a path leads to.

Where a path leads is decided by the links on the way alone, even where nothing is
yet: the destination of a path takes every name that is no link for a directory.

* `Disk.link?`, `Disk.file?` — the link and the file at a place;
* `Disk.destination` — the place that a path leads to, if not around in circles;
* `Walk.destinationFrom_eq` — what a walk finds is at the destination;
* `destination_congr` — disks with the same links have the same destinations;
* `destination_eq_of_moves` — only the pieces of a path count that lead somewhere.

Design notes: as in `Disk.follow` the number of links is bounded, but the pieces
between two links are taken by recursion on them.
-/
import StyleTokens.Proofs.Disk.Walk

namespace StyleTokens

/-- The place of what was found, or where it would be. -/
def Found.place : Found → Place
  | .at place _ => place
  | .absent parent name => parent ++ [name]

namespace Disk

open Path (IsIdle)

variable {disk later : Disk} {followLast : Bool} {links : Nat} {place : Place}
  {piece : String} {rest pieces : List String} {found : Found}

/-- The text of the link at a place, if there is one. -/
def link? (disk : Disk) (place : Place) : Option String :=
  match disk.entry? place with
  | some (.link target) => some target
  | _ => none

/-- The bytes of the file at a place, if there is one. -/
def file? (disk : Disk) (place : Place) : Option ByteArray :=
  match disk.entry? place with
  | some (.file data) => some data
  | _ => none

theorem link?_eq_some_iff {target : String} :
    disk.link? place = some target ↔ disk.entry? place = some (.link target) := by
  unfold link?
  split
  · next other h => simp [h]
  · next h =>
    constructor
    · intro he
      cases he
    · exact fun he => absurd he (h target)

/-- There is no link on a disk that none was put on. -/
theorem link?_eq_none_of_entries (h : ∀ place target, (place, .link target) ∉ disk.entries)
    (place : Place) : disk.link? place = none := by
  cases hl : disk.link? place with
  | none => rfl
  | some target =>
    have hlink := link?_eq_some_iff.1 hl
    have hne : place ≠ [] := by
      rintro rfl
      cases hlink
    have hmem := mem_entries_of_entry? hlink hne
    exact absurd hmem (h place target)

theorem file?_eq_some_iff {data : ByteArray} :
    disk.file? place = some data ↔ disk.entry? place = some (.file data) := by
  unfold file?
  split
  · next other h => simp [h]
  · next h =>
    constructor
    · intro he
      cases he
    · exact fun he => absurd he (h data)

theorem file?_congr (h : later.entry? place = disk.entry? place) :
    later.file? place = disk.file? place := by
  rw [file?, h, file?]

/-- The way along pieces up to the first link; `turn` tells where it goes from there. -/
def course (disk : Disk) (turn : Place → String → List String → Option Place) :
    Place → List String → Option Place
  | place, [] => some place
  | place, piece :: rest =>
    if IsIdle piece then disk.course turn place rest
    else if piece = ".." then disk.course turn place.dropLast rest
    else
      match disk.link? (place ++ [piece]) with
      | some target => turn place target rest
      | none => disk.course turn (place ++ [piece]) rest

/-- Where pieces lead from a place, with a bound on the links. -/
def destinationFrom (disk : Disk) : (links : Nat) → Place → List String → Option Place
  | 0 => disk.course fun _ _ _ => none
  | links + 1 => disk.course fun place target rest =>
    disk.destinationFrom links (Path.origin ⟨target⟩ place) (Path.stretches ⟨target⟩ ++ rest)

/-- Where a path leads. -/
def destination (disk : Disk) (path : Path) : Option Place :=
  disk.destinationFrom linkLimit (path.origin disk.here) path.stretches

/-! ### The destination piece by piece -/

theorem destinationFrom_nil : disk.destinationFrom links place [] = some place := by
  cases links <;> rfl

theorem destinationFrom_idle (h : IsIdle piece) :
    disk.destinationFrom links place (piece :: rest) = disk.destinationFrom links place rest := by
  cases links <;> exact if_pos h

theorem destinationFrom_up :
    disk.destinationFrom links place (".." :: rest) =
      disk.destinationFrom links place.dropLast rest := by
  cases links <;> rfl

theorem destinationFrom_name (hi : ¬ IsIdle piece) (hu : piece ≠ "..")
    (h : disk.link? (place ++ [piece]) = none) :
    disk.destinationFrom links place (piece :: rest) =
      disk.destinationFrom links (place ++ [piece]) rest := by
  cases links <;> rw [destinationFrom, course, if_neg hi, if_neg hu, h]

theorem destinationFrom_link {target : String} (hi : ¬ IsIdle piece) (hu : piece ≠ "..")
    (h : disk.link? (place ++ [piece]) = some target) :
    disk.destinationFrom (links + 1) place (piece :: rest) =
      disk.destinationFrom links (Path.origin ⟨target⟩ place)
        (Path.stretches ⟨target⟩ ++ rest) := by
  rw [destinationFrom, course, if_neg hi, if_neg hu, h]

/-- **What a walk finds is at the destination**, unless it is a link that was not
followed. -/
theorem Walk.destinationFrom_eq (h : disk.Walk followLast links place pieces found)
    (hlink : ∀ other target, found ≠ .at other (.link target)) :
    disk.destinationFrom links place pieces = some found.place := by
  induction h with
  | arrive _ => exact destinationFrom_nil
  | idle hi _ ih => rw [destinationFrom_idle hi, ih hlink]
  | up _ ih => rw [destinationFrom_up, ih hlink]
  | missing hn he =>
    rw [destinationFrom_name hn.not_idle hn.ne_up (by rw [link?, he]), destinationFrom_nil]
    rfl
  | enter hn he _ ih =>
    rw [destinationFrom_name hn.not_idle hn.ne_up (by rw [link?, he]), ih hlink]
  | @leaf _ _ _ entry hn he _ hno =>
    rw [destinationFrom_name hn.not_idle hn.ne_up ?_, destinationFrom_nil]
    · rfl
    · rw [link?, he]
      cases entry with
      | link target => exact absurd rfl (hno target)
      | _ => rfl
  | @lastLink _ _ _ target _ _ _ => exact absurd rfl (hlink _ target)
  | turn hn he _ _ ih =>
    rw [destinationFrom_link hn.not_idle hn.ne_up (link?_eq_some_iff.2 he), ih hlink]

/-- The destination in terms of what `find` finds. -/
theorem destination_of_find {path : Path} (h : disk.find followLast path = .ok found)
    (hlink : ∀ other target, found ≠ .at other (.link target)) :
    disk.destination path = some found.place :=
  (find_eq_ok_iff.1 h).2.destinationFrom_eq hlink

/-! ### What the destination depends on -/

theorem course_congr {turn turn' : Place → String → List String → Option Place}
    (hl : ∀ other, later.link? other = disk.link? other)
    (ht : ∀ place target rest, turn' place target rest = turn place target rest) :
    later.course turn' place pieces = disk.course turn place pieces := by
  induction pieces generalizing place with
  | nil => rfl
  | cons piece rest ih =>
    rw [course, course, hl]
    split
    · exact ih
    · split
      · exact ih
      · split
        · exact ht _ _ _
        · exact ih

theorem destinationFrom_congr (hl : ∀ other, later.link? other = disk.link? other) :
    later.destinationFrom links place pieces = disk.destinationFrom links place pieces := by
  induction links generalizing place pieces with
  | zero => exact course_congr hl fun _ _ _ => rfl
  | succ links ih => exact course_congr hl fun _ _ _ => ih

/-- **Disks with the same links have the same destinations.** -/
theorem destination_congr (hl : ∀ other, later.link? other = disk.link? other)
    (hh : later.here = disk.here) (path : Path) :
    later.destination path = disk.destination path := by
  rw [destination, destination, hh, destinationFrom_congr hl]

theorem course_filter {turn : Place → String → List String → Option Place}
    (ht : ∀ place target rest,
      turn place target (rest.filter fun piece => ¬ IsIdle piece) = turn place target rest) :
    disk.course turn place (pieces.filter fun piece => ¬ IsIdle piece) =
      disk.course turn place pieces := by
  induction pieces generalizing place with
  | nil => rfl
  | cons piece rest ih =>
    by_cases hi : IsIdle piece
    · rw [List.filter_cons, if_neg (by simpa using hi), course, if_pos hi, ih]
    · rw [List.filter_cons, if_pos (by simpa using hi), course, course, if_neg hi, if_neg hi]
      split
      · exact ih
      · split
        · exact ht _ _ _
        · exact ih

/-- Idle pieces do not matter. -/
theorem destinationFrom_filter (links : Nat) (place : Place) (pieces : List String) :
    disk.destinationFrom links place (pieces.filter fun piece => ¬ IsIdle piece) =
      disk.destinationFrom links place pieces := by
  induction links generalizing place pieces with
  | zero => exact course_filter fun _ _ _ => rfl
  | succ links ih =>
    -- the pieces of a link come before the rest, and may be idle as well
    refine course_filter fun place target rest => ?_
    rw [← ih, ← ih _ (Path.stretches ⟨target⟩ ++ rest), List.filter_append,
      List.filter_append, List.filter_filter]
    simp

theorem destination_eq_moves (disk : Disk) (path : Path) :
    disk.destination path =
      disk.destinationFrom linkLimit (path.origin disk.here) path.moves :=
  (destinationFrom_filter _ _ _).symm

/-- **Only the pieces of a path count that lead somewhere.** -/
theorem destination_eq_of_moves {path other : Path} (hm : other.moves = path.moves)
    (ha : other.isAbsolute = path.isAbsolute) :
    disk.destination other = disk.destination path := by
  rw [destination_eq_moves, destination_eq_moves, hm, Path.origin, Path.origin, ha]

/-- A path is the same without its last slashes, and those slashes. -/
theorem withoutSlashes_cases (path : Path) : withoutSlashes path = path ∨
    ∃ front count, front ≠ [] ∧ withoutSlashes path = ⟨String.ofList front⟩ ∧
      path = ⟨String.ofList (front ++ List.replicate count '/')⟩ := by
  have hunfold : withoutSlashes path =
      if (path.text.toList.reverse.dropWhile (· == '/')).isEmpty then path
      else ⟨String.ofList (path.text.toList.reverse.dropWhile (· == '/')).reverse⟩ := rfl
  rw [hunfold]
  by_cases he : (path.text.toList.reverse.dropWhile (· == '/')).isEmpty
  · rw [if_pos he]
    exact Or.inl rfl
  · rw [if_neg he]
    refine Or.inr ⟨_, (path.text.toList.reverse.takeWhile (· == '/')).length, ?_, rfl, ?_⟩
    · simpa using he
    · have hall : ∀ c ∈ path.text.toList.reverse.takeWhile (· == '/'), c = '/' := fun c hc => by
        simpa using List.all_eq_true.1 List.all_takeWhile c hc
      rw [← List.reverse_replicate, ← List.eq_replicate_of_mem hall, ← List.reverse_append,
        List.takeWhile_append_dropWhile, List.reverse_reverse, String.ofList_toList]

theorem moves_withoutSlashes (path : Path) :
    (withoutSlashes path).moves = path.moves := by
  rcases withoutSlashes_cases path with h | ⟨front, count, -, h, hpath⟩
  · rw [h]
  · rw [h, hpath, Path.moves_append_slashes]

theorem isAbsolute_withoutSlashes (path : Path) :
    (withoutSlashes path).isAbsolute = path.isAbsolute := by
  rcases withoutSlashes_cases path with h | ⟨front, count, hne, h, hpath⟩
  · rw [h]
  · obtain ⟨c, rest, rfl⟩ := List.exists_cons_of_ne_nil hne
    rw [h, hpath, Path.isAbsolute, Path.isAbsolute, String.toList_ofList, String.toList_ofList]
    rfl

/-- Slashes at the end of a path lead nowhere. -/
theorem destination_withoutSlashes (disk : Disk) (path : Path) :
    disk.destination (withoutSlashes path) = disk.destination path :=
  destination_eq_of_moves (moves_withoutSlashes path) (isAbsolute_withoutSlashes path)

/-- Two paths that do not lead to one place. -/
def Apart (disk : Disk) (path other : Path) : Prop :=
  ∀ place, disk.destination path = some place → disk.destination other ≠ some place

instance (disk : Disk) (path other : Path) : Decidable (disk.Apart path other) :=
  inferInstanceAs (Decidable (∀ place ∈ disk.destination path, disk.destination other ≠ some place))

theorem Apart.symm {path other : Path} (h : disk.Apart path other) : disk.Apart other path :=
  fun place hother hpath => h place hpath hother

theorem Apart.congr {path other : Path} (h : disk.Apart path other)
    (hd : ∀ path, later.destination path = disk.destination path) : later.Apart path other :=
  fun place hpath hother => h place ((hd path).symm.trans hpath) ((hd other).symm.trans hother)

end Disk

end StyleTokens

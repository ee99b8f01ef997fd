/-
Walks along paths.

A path is followed piece by piece, and every link that is met puts the pieces of
its text in front of what is left.  `Disk.follow` does so with a bound on its steps;
here the same walk is a relation without one.

* `Disk.Walk` — the walk from a place along pieces, and what it finds;
* `walk_of_follow`, `follow_of_walk` — `follow` finds what a walk finds, given
  enough steps;
* `find_eq_ok_iff` — the bound that `find` uses is enough;
* `Walk.entry?_at`, `Walk.entry?_absent` — what is found is on the disk;
* `Walk.endsWithName` — only a name leads to something other than a directory;
* `Walk.filter` — idle pieces do not matter in front of a name.

Design notes: a walk that begins in a directory stays in directories, and so do the
directories above it (`Disk.Solid`).
-/
import StyleTokens.Disk
import StyleTokens.Proofs.Path.Pieces

namespace StyleTokens

namespace Disk

open Path (IsIdle)

/-- A piece that is the name of something. -/
structure IsName (piece : String) : Prop where
  not_idle : ¬ IsIdle piece
  ne_up : piece ≠ ".."
  short : piece.utf8ByteSize ≤ nameLimit

instance (piece : String) : Decidable (IsName piece) :=
  decidable_of_iff (¬ IsIdle piece ∧ piece ≠ ".." ∧ piece.utf8ByteSize ≤ nameLimit)
    ⟨fun ⟨hi, hu, hs⟩ => ⟨hi, hu, hs⟩, fun h => ⟨h.not_idle, h.ne_up, h.short⟩⟩

/-- The walk from a place along pieces, with a bound on the links that are followed,
and what it finds. -/
inductive Walk (disk : Disk) (followLast : Bool) : Nat → Place → List String → Found → Prop
  | arrive {links : Nat} {place : Place} {entry : Entry} (h : disk.entry? place = some entry) :
    Walk disk followLast links place [] (.at place entry)
  | idle {links : Nat} {place : Place} {piece : String} {rest : List String} {found : Found}
    (h : IsIdle piece) (next : Walk disk followLast links place rest found) :
    Walk disk followLast links place (piece :: rest) found
  | up {links : Nat} {place : Place} {rest : List String} {found : Found}
    (next : Walk disk followLast links place.dropLast rest found) :
    Walk disk followLast links place (".." :: rest) found
  | missing {links : Nat} {place : Place} {piece : String} (name : IsName piece)
    (h : disk.entry? (place ++ [piece]) = none) :
    Walk disk followLast links place [piece] (.absent place piece)
  | enter {links : Nat} {place : Place} {piece : String} {rest : List String} {found : Found}
    (name : IsName piece) (h : disk.entry? (place ++ [piece]) = some .directory)
    (next : Walk disk followLast links (place ++ [piece]) rest found) :
    Walk disk followLast links place (piece :: rest) found
  | leaf {links : Nat} {place : Place} {piece : String} {entry : Entry} (name : IsName piece)
    (h : disk.entry? (place ++ [piece]) = some entry) (hdir : entry ≠ .directory)
    (hlink : ∀ target, entry ≠ .link target) :
    Walk disk followLast links place [piece] (.at (place ++ [piece]) entry)
  | lastLink {links : Nat} {place : Place} {piece target : String} (stays : followLast = false)
    (name : IsName piece) (h : disk.entry? (place ++ [piece]) = some (.link target)) :
    Walk disk followLast links place [piece] (.at (place ++ [piece]) (.link target))
  | turn {links : Nat} {place : Place} {piece target : String} {rest : List String}
    {found : Found} (name : IsName piece)
    (h : disk.entry? (place ++ [piece]) = some (.link target))
    (goes : rest = [] → followLast = true)
    (next : Walk disk followLast links (Path.origin ⟨target⟩ place)
      (Path.stretches ⟨target⟩ ++ rest) found) :
    Walk disk followLast (links + 1) place (piece :: rest) found

variable {disk : Disk} {followLast : Bool} {links steps bound : Nat} {place : Place}
  {piece : String} {rest pieces : List String} {found : Found}

/-! ### Steps -/

@[simp] theorem follow_zero :
    disk.follow followLast 0 links place pieces = .error .tooManyLinks := rfl

theorem follow_nil :
    disk.follow followLast (steps + 1) links place [] =
      match disk.entry? place with
      | some entry => .ok (.at place entry)
      | none => .error .notFound := rfl

theorem follow_idle (h : IsIdle piece) :
    disk.follow followLast (steps + 1) links place (piece :: rest) =
      disk.follow followLast steps links place rest := by
  rw [follow, if_pos]
  simpa [IsIdle] using h

theorem follow_up :
    disk.follow followLast (steps + 1) links place (".." :: rest) =
      disk.follow followLast steps links place.dropLast rest := by
  rw [follow, if_neg (by decide), if_pos rfl]

theorem follow_name (h : IsName piece) :
    disk.follow followLast (steps + 1) links place (piece :: rest) =
      match disk.entry? (place ++ [piece]) with
      | none => if rest = [] then .ok (.absent place piece) else .error .notFound
      | some .directory => disk.follow followLast steps links (place ++ [piece]) rest
      | some (.link target) =>
        if rest = [] && !followLast then .ok (.at (place ++ [piece]) (.link target))
        else
          match links with
          | 0 => .error .tooManyLinks
          | links + 1 => disk.follow followLast steps links (Path.origin ⟨target⟩ place)
              (Path.stretches ⟨target⟩ ++ rest)
      | some entry =>
        if rest = [] then .ok (.at (place ++ [piece]) entry) else .error .notDirectory := by
  rw [follow, if_neg (by simpa [IsIdle] using h.not_idle), if_neg h.ne_up,
    if_neg (Nat.not_lt.2 h.short)]
  rfl

/-- A piece is idle, goes up or is a name, or it is too long. -/
theorem piece_cases (piece : String) :
    IsIdle piece ∨ piece = ".." ∨ IsName piece ∨
      (¬ IsIdle piece ∧ piece ≠ ".." ∧ nameLimit < piece.utf8ByteSize) := by
  by_cases h : IsIdle piece
  · exact Or.inl h
  · by_cases hu : piece = ".."
    · exact Or.inr (Or.inl hu)
    · by_cases hs : piece.utf8ByteSize ≤ nameLimit
      · exact Or.inr (Or.inr (Or.inl ⟨h, hu, hs⟩))
      · exact Or.inr (Or.inr (Or.inr ⟨h, hu, Nat.not_le.1 hs⟩))

theorem follow_long (h : ¬ IsIdle piece) (hu : piece ≠ "..")
    (hl : nameLimit < piece.utf8ByteSize) :
    disk.follow followLast (steps + 1) links place (piece :: rest) = .error .nameTooLong := by
  rw [follow, if_neg (by simpa [IsIdle] using h), if_neg hu, if_pos hl]
  rfl

/-- What `follow` finds, a walk finds. -/
theorem walk_of_follow (h : disk.follow followLast steps links place pieces = .ok found) :
    disk.Walk followLast links place pieces found := by
  induction steps generalizing links place pieces with
  | zero => simp at h
  | succ steps ih =>
    match pieces with
    | [] =>
      rw [follow_nil] at h
      split at h
      · next entry he =>
        cases h
        exact .arrive he
      · cases h
    | piece :: rest =>
      rcases piece_cases piece with hp | rfl | hp | ⟨hp, hu, hl⟩
      · rw [follow_idle hp] at h
        exact .idle hp (ih h)
      · rw [follow_up] at h
        exact .up (ih h)
      · rw [follow_name hp] at h
        split at h
        · next he =>
          split at h
          · next hr =>
            cases h
            subst hr
            exact .missing hp he
          · cases h
        · next he => exact .enter hp he (ih h)
        · next target he =>
          split at h
          · next hr =>
            simp only [Bool.and_eq_true, decide_eq_true_eq, Bool.not_eq_true'] at hr
            obtain ⟨rfl, hf⟩ := hr
            cases h
            exact .lastLink hf hp he
          · next hr =>
            have hgoes : rest = [] → followLast = true := by simpa using hr
            split at h
            · cases h
            · exact .turn hp he hgoes (ih h)
        · next entry hdir hlink he =>
          split at h
          · next hr =>
            cases h
            subst hr
            exact .leaf hp he (fun hd => hdir hd) (fun target ht => hlink target ht)
          · cases h
      · rw [follow_long hp hu hl] at h
        cases h

/-- What a walk finds, `follow` finds with a step for each piece of the path and of
the links that may still be followed. -/
theorem follow_of_walk (hb : ∀ other target, disk.entry? other = some (.link target) →
      (Path.stretches ⟨target⟩).length ≤ bound)
    (h : disk.Walk followLast links place pieces found)
    (hs : pieces.length + links * bound < steps) :
    disk.follow followLast steps links place pieces = .ok found := by
  induction h generalizing steps with
  | arrive he =>
    obtain ⟨steps, rfl⟩ : ∃ n, steps = n + 1 := ⟨steps - 1, by omega⟩
    rw [follow_nil, he]
  | idle hp _ ih =>
    obtain ⟨steps, rfl⟩ : ∃ n, steps = n + 1 := ⟨steps - 1, by omega⟩
    rw [follow_idle hp]
    exact ih (by simp only [List.length_cons] at hs; omega)
  | up _ ih =>
    obtain ⟨steps, rfl⟩ : ∃ n, steps = n + 1 := ⟨steps - 1, by omega⟩
    rw [follow_up]
    exact ih (by simp only [List.length_cons] at hs; omega)
  | missing hp he =>
    obtain ⟨steps, rfl⟩ : ∃ n, steps = n + 1 := ⟨steps - 1, by omega⟩
    rw [follow_name hp, he]
    rfl
  | enter hp he _ ih =>
    obtain ⟨steps, rfl⟩ : ∃ n, steps = n + 1 := ⟨steps - 1, by omega⟩
    rw [follow_name hp, he]
    exact ih (by simp only [List.length_cons] at hs; omega)
  | @leaf _ _ _ entry hp he hdir hlink =>
    obtain ⟨steps, rfl⟩ : ∃ n, steps = n + 1 := ⟨steps - 1, by omega⟩
    rw [follow_name hp, he]
    cases entry with
    | directory => exact absurd rfl hdir
    | link target => exact absurd rfl (hlink target)
    | file data => rfl
    | device device => rfl
  | lastLink hf hp he =>
    obtain ⟨steps, rfl⟩ : ∃ n, steps = n + 1 := ⟨steps - 1, by omega⟩
    rw [follow_name hp, he, hf]
    rfl
  | @turn links _ _ target rest _ hp he hgoes _ ih =>
    obtain ⟨steps, rfl⟩ : ∃ n, steps = n + 1 := ⟨steps - 1, by omega⟩
    have hturn : (decide (rest = []) && !followLast) = false := by
      by_cases hr : rest = []
      · simp [hgoes hr]
      · simp [hr]
    rw [follow_name hp, he]
    simp only [hturn]
    refine ih ?_
    have := hb _ _ he
    simp only [List.length_cons, List.length_append, Nat.add_mul, Nat.one_mul] at hs ⊢
    omega

/-! ### Paths -/

theorem le_foldl_max (start : Nat) (numbers : List Nat) :
    start ≤ numbers.foldl max start ∧ ∀ n ∈ numbers, n ≤ numbers.foldl max start := by
  induction numbers generalizing start with
  | nil => simp
  | cons first others ih =>
    obtain ⟨hs, ho⟩ := ih (max start first)
    rw [List.foldl_cons]
    refine ⟨Nat.le_trans (Nat.le_max_left _ _) hs, fun n hn => ?_⟩
    rcases List.mem_cons.1 hn with rfl | hn
    · exact Nat.le_trans (Nat.le_max_right _ _) hs
    · exact ho n hn

/-- What is at a place other than the root is one of the entries. -/
theorem mem_entries_of_entry? {entry : Entry} (h : disk.entry? place = some entry)
    (hp : place ≠ []) : (place, entry) ∈ disk.entries := by
  rw [ entry?, if_neg hp] at h
  obtain ⟨before, after, he, -⟩ := List.lookup_eq_some_iff.1 h
  rw [he]
  simp

theorem entry?_nil : disk.entry? [] = some .directory := if_pos rfl

/-- The steps that an entry may take up. -/
def linkSteps : Place × Entry → Nat
  | (_, .link target) => target.length + 1
  | _ => 0

theorem stepLimit_eq (disk : Disk) (pieces : List String) :
    disk.stepLimit pieces =
      pieces.length + linkLimit * ((disk.entries.map linkSteps).foldl max 0 + 1) + 1 := rfl

/-- The steps that `find` allows suffice for every path of that many pieces. -/
theorem steps_suffice (disk : Disk) (pieces : List String) :
    ∃ bound, (∀ other target, disk.entry? other = some (.link target) →
        (Path.stretches ⟨target⟩).length ≤ bound) ∧
      pieces.length + linkLimit * bound < disk.stepLimit pieces := by
  refine ⟨(disk.entries.map linkSteps).foldl max 0 + 1, fun other target h => ?_, ?_⟩
  · have hne : other ≠ [] := by
      rintro rfl
      rw [entry?_nil] at h
      cases h
    have hmem : target.length + 1 ∈ disk.entries.map linkSteps :=
      List.mem_map.2 ⟨(other, .link target), mem_entries_of_entry? h hne, rfl⟩
    calc (Path.stretches ⟨target⟩).length
        ≤ target.length + 1 := by
          rw [Path.stretches, List.length_map, ← String.length_toList]
          exact Path.length_pieces_le _
      _ ≤ _ := Nat.le_succ_of_le ((le_foldl_max _ _).2 _ hmem)
  · rw [stepLimit_eq]
    exact Nat.lt_succ_self _

/-- A text that can be a path. -/
structure Accepts (path : Path) : Prop where
  ne_empty : path.text ≠ ""
  no_nul : '\x00' ∉ path.text.toList
  short : path.text.utf8ByteSize ≤ pathLimit

theorem piecesOf_eq_ok_iff {path : Path} :
    piecesOf path = .ok pieces ↔ Accepts path ∧ path.stretches = pieces := by
  constructor
  · intro h
    unfold piecesOf at h
    split at h
    · cases h
    · next hne =>
      split at h
      · cases h
      · next hnul =>
        split at h
        · cases h
        · next hlen =>
          cases h
          exact ⟨⟨hne, by simpa using hnul, Nat.not_lt.1 hlen⟩, rfl⟩
  · rintro ⟨ha, rfl⟩
    rw [piecesOf, if_neg ha.ne_empty, if_neg (by simpa using ha.no_nul),
      if_neg (Nat.not_lt.2 ha.short)]
    rfl

/-- **The bound of `find` is enough.**  It finds exactly what a walk along the pieces of
the path finds. -/
theorem find_eq_ok_iff {path : Path} :
    disk.find followLast path = .ok found ↔ Accepts path ∧
      disk.Walk followLast linkLimit (path.origin disk.here) path.stretches found := by
  obtain ⟨bound, hb, hs⟩ := steps_suffice disk path.stretches
  unfold find
  constructor
  · intro h
    cases hp : piecesOf path with
    | error cause =>
      rw [hp] at h
      cases h
    | ok pieces =>
      rw [hp] at h
      obtain ⟨ha, rfl⟩ := piecesOf_eq_ok_iff.1 hp
      exact ⟨ha, walk_of_follow h⟩
  · rintro ⟨ha, h⟩
    rw [piecesOf_eq_ok_iff.2 ⟨ha, rfl⟩]
    exact follow_of_walk hb h hs

/-! ### What walks find -/

/-- A directory below directories only. -/
def Solid (disk : Disk) (place : Place) : Prop :=
  ∀ above, above <+: place → disk.entry? above = some .directory

theorem solid_nil : disk.Solid [] := by
  intro above h
  rw [List.prefix_nil.1 h]
  exact entry?_nil

theorem solid_singleton {name : String} (h : disk.entry? [name] = some .directory) :
    disk.Solid [name] := by
  intro above ha
  rcases List.prefix_concat_iff.1 (show above <+: [] ++ [name] from ha) with rfl | ha
  · exact h
  · exact solid_nil above ha

theorem Solid.here (h : disk.Solid place) : disk.entry? place = some .directory :=
  h place List.prefix_rfl

theorem Solid.dropLast (h : disk.Solid place) : disk.Solid place.dropLast :=
  fun _ ha => h _ (ha.trans (List.dropLast_prefix place))

theorem Solid.append (h : disk.Solid place) (he : disk.entry? (place ++ [piece]) = some .directory) :
    disk.Solid (place ++ [piece]) := by
  intro above ha
  rcases List.prefix_concat_iff.1 ha with rfl | ha
  · exact he
  · exact h above ha

theorem Solid.origin (h : disk.Solid place) (path : Path) : disk.Solid (path.origin place) := by
  unfold Path.origin
  split
  · exact solid_nil
  · exact h

/-- The last of the pieces is a name. -/
def EndsWithName (pieces : List String) : Prop :=
  ∃ before name, pieces = before ++ [name] ∧ IsName name

instance (pieces : List String) : Decidable (EndsWithName pieces) :=
  decidable_of_iff (∃ name ∈ pieces.getLast?, IsName name) <| by
    simp only [EndsWithName, Option.mem_def, List.getLast?_eq_some_iff]
    constructor
    · rintro ⟨name, ⟨before, rfl⟩, hn⟩
      exact ⟨before, name, rfl, hn⟩
    · rintro ⟨before, name, rfl, hn⟩
      exact ⟨name, ⟨before, rfl⟩, hn⟩

namespace EndsWithName

theorem single (h : IsName piece) : EndsWithName [piece] :=
  ⟨[], piece, rfl, h⟩

theorem cons (h : EndsWithName rest) (piece : String) : EndsWithName (piece :: rest) := by
  obtain ⟨before, name, rfl, hn⟩ := h
  exact ⟨piece :: before, name, rfl, hn⟩

theorem of_append (before : List String) (h : EndsWithName (before ++ rest)) (hr : rest ≠ []) :
    EndsWithName rest := by
  obtain ⟨front, name, heq, hn⟩ := h
  obtain ⟨middle, last, rfl⟩ := (List.eq_nil_or_concat rest).resolve_left hr
  rw [List.concat_eq_append, ← List.append_assoc] at heq
  obtain ⟨-, hlast⟩ := List.append_inj' heq rfl
  obtain rfl : last = name := by simpa using hlast
  exact ⟨middle, last, List.concat_eq_append, hn⟩

theorem of_cons (h : EndsWithName (piece :: rest)) (hr : rest ≠ []) : EndsWithName rest :=
  of_append [piece] h hr

theorem name (h : EndsWithName [piece]) : IsName piece := by
  obtain ⟨before, name, heq, hn⟩ := h
  have := congrArg List.getLast? heq
  rw [List.getLast?_concat] at this
  obtain rfl : piece = name := by simpa using this
  exact hn

/-- Behind a piece that is no name, there are more. -/
theorem tail (h : EndsWithName (piece :: rest)) (hp : ¬ IsName piece) : EndsWithName rest := by
  refine h.of_cons ?_
  rintro rfl
  exact hp h.name

theorem ne_nil (h : EndsWithName pieces) : pieces ≠ [] := by
  obtain ⟨before, name, rfl, -⟩ := h
  simp

theorem filter_ne_nil (h : EndsWithName pieces) :
    pieces.filter (fun piece => ¬ IsIdle piece) ≠ [] := by
  obtain ⟨before, name, rfl, hn⟩ := h
  simp [List.filter_append, hn.not_idle]

/-- Where all pieces are a single one, that is the last one and stays. -/
theorem filter_of_single {before : List String} (h : EndsWithName pieces)
    (hp : before ++ pieces = [piece]) :
    before ++ pieces.filter (fun piece => ¬ IsIdle piece) = [piece] := by
  cases before with
  | nil =>
    obtain rfl : pieces = [piece] := hp
    simp [h.name.not_idle]
  | cons first others =>
    obtain ⟨-, heq⟩ := List.cons.inj hp
    exact absurd (List.append_eq_nil_iff.1 heq).2 h.ne_nil

end EndsWithName

namespace Walk

/-- What is found at a place is on the disk. -/
theorem entry?_at {entry : Entry} {other : Place}
    (h : disk.Walk followLast links place pieces (.at other entry)) :
    disk.entry? other = some entry := by
  generalize hf : Found.at other entry = found at h
  induction h with
  | arrive he => cases hf; exact he
  | idle _ _ ih => exact ih hf
  | up _ ih => exact ih hf
  | missing _ _ => cases hf
  | enter _ _ _ ih => exact ih hf
  | leaf _ he _ _ => cases hf; exact he
  | lastLink _ _ he => cases hf; exact he
  | turn _ _ _ _ ih => exact ih hf

/-- What is missing is missing on the disk. -/
theorem entry?_absent {parent : Place} {name : String}
    (h : disk.Walk followLast links place pieces (.absent parent name)) :
    disk.entry? (parent ++ [name]) = none := by
  generalize hf : Found.absent parent name = found at h
  induction h with
  | arrive _ => cases hf
  | idle _ _ ih => exact ih hf
  | up _ ih => exact ih hf
  | missing _ he => cases hf; exact he
  | enter _ _ _ ih => exact ih hf
  | leaf _ _ _ _ => cases hf
  | lastLink _ _ _ => cases hf
  | turn _ _ _ _ ih => exact ih hf

/-- A walk from a solid place that follows every link ends at none. -/
theorem not_link {other : Place} {target : String} (hsolid : disk.Solid place) :
    ¬ disk.Walk true links place pieces (.at other (.link target)) := by
  intro h
  generalize hf : Found.at other (.link target) = found at h
  induction h with
  | arrive he =>
    cases hf
    rw [hsolid.here] at he
    cases he
  | idle _ _ ih => exact ih hsolid hf
  | up _ ih => exact ih hsolid.dropLast hf
  | missing _ _ => cases hf
  | enter _ he _ ih => exact ih (hsolid.append he) hf
  | leaf _ _ _ hlink =>
    cases hf
    exact hlink target rfl
  | lastLink hstays _ _ => cases hstays
  | turn _ _ _ _ ih => exact ih (hsolid.origin _) hf

/-- A walk from a solid place that ends at something other than a directory ends with a
name. -/
theorem endsWithName {other : Place} {entry : Entry} (hsolid : disk.Solid place)
    (hdir : entry ≠ .directory) (h : disk.Walk followLast links place pieces (.at other entry)) :
    EndsWithName pieces := by
  generalize hf : Found.at other entry = found at h
  induction h with
  | arrive he =>
    cases hf
    rw [hsolid.here] at he
    cases he
    exact absurd rfl hdir
  | idle _ _ ih => exact (ih hsolid hf).cons _
  | up _ ih => exact (ih hsolid.dropLast hf).cons _
  | missing _ _ => cases hf
  | enter _ he _ ih => exact (ih (hsolid.append he) hf).cons _
  | leaf hn _ _ _ => exact .single hn
  | lastLink _ hn _ => exact .single hn
  | @turn _ _ piece _ rest _ hn _ _ _ ih =>
    -- behind the link comes the rest of the path, or the link was its last name
    by_cases hr : rest = []
    · subst hr
      exact .single hn
    · exact ((ih (hsolid.origin _) hf).of_append _ hr).cons piece

/-- Idle pieces near the end of a walk may be left out, as long as the last piece is a
name. -/
theorem filter_append (before : List String) {after : List String} (hlast : EndsWithName after)
    (h : disk.Walk followLast links place (before ++ after) found) :
    disk.Walk followLast links place (before ++ after.filter fun piece => ¬ IsIdle piece) found := by
  -- the pieces that stay are part of the statement, as those of a link come before the rest
  generalize hp : before ++ after = pieces at h
  induction h generalizing before after with
  | arrive _ =>
    obtain ⟨-, rfl⟩ := List.append_eq_nil_iff.1 hp
    exact absurd rfl hlast.ne_nil
  | @idle _ _ piece rest _ hi _ ih =>
    cases before with
    | nil =>
      obtain rfl : after = piece :: rest := hp
      rw [List.filter_cons, if_neg (by simpa using hi)]
      exact ih [] (hlast.tail fun hn => hn.not_idle hi) rfl
    | cons first others =>
      obtain ⟨rfl, rfl⟩ := List.cons.inj hp
      exact .idle hi (ih _ hlast rfl)
  | @up _ _ rest _ _ ih =>
    cases before with
    | nil =>
      obtain rfl : after = ".." :: rest := hp
      rw [List.filter_cons, if_pos (by decide)]
      exact .up (ih [] (hlast.tail fun hn => hn.ne_up rfl) rfl)
    | cons first others =>
      obtain ⟨rfl, rfl⟩ := List.cons.inj hp
      exact .up (ih _ hlast rfl)
  | @missing _ _ piece hn he =>
    rw [hlast.filter_of_single hp]
    exact .missing hn he
  | @enter _ _ piece rest _ hn he hnext ih =>
    cases before with
    | nil =>
      obtain rfl : after = piece :: rest := hp
      rw [List.filter_cons, if_pos (by simpa using hn.not_idle)]
      by_cases hr : rest = []
      · subst hr
        exact .enter hn he hnext
      · exact .enter hn he (ih [] (hlast.of_cons hr) rfl)
    | cons first others =>
      obtain ⟨rfl, rfl⟩ := List.cons.inj hp
      exact .enter hn he (ih _ hlast rfl)
  | @leaf _ _ piece _ hn he hdir hlink =>
    rw [hlast.filter_of_single hp]
    exact .leaf hn he hdir hlink
  | @lastLink _ _ piece _ hstays hn he =>
    rw [hlast.filter_of_single hp]
    exact .lastLink hstays hn he
  | @turn _ _ piece target rest _ hn he hgoes hnext ih =>
    cases before with
    | nil =>
      obtain rfl : after = piece :: rest := hp
      rw [List.filter_cons, if_pos (by simpa using hn.not_idle)]
      by_cases hr : rest = []
      · subst hr
        exact .turn hn he hgoes hnext
      · have hrest := hlast.of_cons hr
        exact .turn hn he (fun h => absurd h hrest.filter_ne_nil) (ih _ hrest rfl)
    | cons first others =>
      obtain ⟨rfl, rfl⟩ := List.cons.inj hp
      refine .turn hn he (fun h => ?_) ?_
      · exact absurd (List.append_eq_nil_iff.1 h).2 hlast.filter_ne_nil
      · have := ih (Path.stretches ⟨target⟩ ++ others) hlast (List.append_assoc _ _ _)
        rwa [List.append_assoc] at this

/-- Idle pieces may be left out, as long as the last piece is a name. -/
theorem filter (h : disk.Walk followLast links place pieces found) (hlast : EndsWithName pieces) :
    disk.Walk followLast links place (pieces.filter fun piece => ¬ IsIdle piece) found :=
  filter_append [] hlast h

end Walk

end Disk

end StyleTokens

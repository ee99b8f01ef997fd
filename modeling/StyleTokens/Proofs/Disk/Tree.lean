/-
Disks that are trees.

A disk is a list of places with what is there.  On a real one each place is there once, its
names are names, and there is a directory above it.

* `Disk.Once`, `Disk.Named`, `Disk.Rooted` — the three of them;
* `mem_files_iff` — the files below a directory;
* `Disk.Splits`, `destinationFrom_append` — a way in two parts;
* `destination_below` — where there is no link, names lead straight on.
-/
import Mathlib.Data.List.Induction
import StyleTokens.Proofs.Disk.Reach
import StyleTokens.Proofs.Path.Below

namespace StyleTokens.Disk

open Path (IsIdle IsLabel)

variable {disk : Disk} {links : Nat} {place top : Place} {front rest names : List String}
  {entry : Entry} {path other : Path} {data : ByteArray}

/-- Each place is there once, and the root is none of them. -/
structure Once (disk : Disk) : Prop where
  nodup : (disk.entries.map (·.1)).Nodup
  no_root : [] ∉ disk.entries.map (·.1)

/-- The places of files are made of names. -/
def Named (disk : Disk) : Prop :=
  ∀ place data, disk.file? place = some data → ∀ name ∈ place, IsLabel name

/-- What is there is in a directory. -/
def Rooted (disk : Disk) : Prop :=
  ∀ place name entry, disk.entry? (place ++ [name]) = some entry →
    disk.entry? place = some .directory

/-- What a disk has to be like to be a tree. -/
structure IsTree (disk : Disk) : Prop where
  once : disk.Once
  named : disk.Named
  rooted : disk.Rooted

/-- A disk whose entries show that it is one. -/
theorem isTree_of_entries (hnodup : (disk.entries.map (·.1)).Nodup)
    (hnames : ∀ entry ∈ disk.entries, entry.1 ≠ [] ∧ ∀ name ∈ entry.1, IsLabel name)
    (habove : ∀ entry ∈ disk.entries,
      (disk.entry? entry.1.dropLast).any Entry.isDirectory = true) : disk.IsTree where
  once := ⟨hnodup, fun h => by
    obtain ⟨entry, he, hnil⟩ := List.mem_map.1 h
    exact (hnames entry he).1 hnil⟩
  named place data h name hn := by
    have hentry := file?_eq_some_iff.1 h
    have hne : place ≠ [] := by
      rintro rfl
      rw [entry?_nil] at hentry
      cases hentry
    exact (hnames _ ( mem_entries_of_entry? hentry hne)).2 name hn
  rooted place name entry h := by
    have hany := habove _ ( mem_entries_of_entry? h (by simp))
    rw [List.dropLast_concat] at hany
    cases he : disk.entry? place with
    | none =>
      rw [he] at hany
      cases hany
    | some above =>
      rw [he] at hany
      cases above with
      | directory => rfl
      | file _ | device _ | link _ => cases hany

/-! ### What is on a tree -/

theorem Once.mem_entries_iff (h : disk.Once) :
    (place, entry) ∈ disk.entries ↔ place ≠ [] ∧ disk.entry? place = some entry := by
  constructor
  · intro hm
    have hplace : place ∈ disk.entries.map (·.1) := List.mem_map.2 ⟨_, hm, rfl⟩
    have hne : place ≠ [] := fun he => h.no_root (he ▸ hplace)
    refine ⟨hne, ?_⟩
    rw [ entry?, if_neg hne]
    obtain ⟨before, after, heq⟩ := List.append_of_mem hm
    refine List.lookup_eq_some_iff.2 ⟨before, after, heq, fun other ho => ?_⟩
    -- the place comes once
    have hnodup := h.nodup
    rw [heq, List.map_append, List.map_cons, List.nodup_append] at hnodup
    have hdistinct := hnodup.2.2 other.1 (List.mem_map.2 ⟨other, ho, rfl⟩) place
      List.mem_cons_self
    simpa using fun he => hdistinct he.symm
  · rintro ⟨hne, he⟩
    exact mem_entries_of_entry? he hne

/-- There are files below a directory only, but for a file that is a root itself. -/
theorem files_cases {root : Path} {found : List (List String)} (h : disk.files root = .ok found) :
    found = [[]] ∨ found = [] ∨ ∃ top, disk.find true root = .ok (.at top .directory) := by
  unfold files at h
  cases hfirst : disk.find false root with
  | error cause =>
    rw [hfirst] at h
    cases h
  | ok first =>
    rw [hfirst] at h
    dsimp only [bind, Except.bind] at h
    split at h
    · exact Or.inl (Except.ok.inj h).symm
    · cases htrue : disk.find true root with
      | error cause =>
        rw [htrue] at h
        cases h
      | ok last =>
        rw [htrue] at h
        dsimp only at h
        split at h
        · exact Or.inr (Or.inr ⟨_, rfl⟩)
        · exact Or.inr (Or.inl (Except.ok.inj h).symm)
        · cases h

/-- **The files below a directory** are those whose places begin with its place. -/
theorem mem_files_iff (h : disk.Once) {root : Path}
    (hr : disk.find true root = .ok (.at top .directory)) {found : List (List String)}
    (hf : disk.files root = .ok found) :
    names ∈ found ↔ ∃ data, disk.file? (top ++ names) = some data := by
  unfold files at hf
  cases hlast : disk.find false root with
  | error cause =>
    rw [hlast] at hf
    cases hf
  | ok first =>
    rw [hlast] at hf
    dsimp only [bind, Except.bind] at hf
    split at hf
    · next place data =>
      -- a file would be found as well when links are followed
      obtain ⟨ha, hw⟩ := find_eq_ok_iff.1 hlast
      have htrue := find_eq_ok_iff.2 ⟨ha, hw.follow_last (by simp)⟩
      rw [hr] at htrue
      cases htrue
    · rw [hr] at hf
      obtain rfl := Except.ok.inj hf
      rw [List.mem_filterMap]
      constructor
      · rintro ⟨⟨other, entry⟩, hm, heq⟩
        cases entry with
        | file data =>
          dsimp only at heq
          split at heq
          · next hprefix =>
            obtain ⟨rest, rfl⟩ := List.isPrefixOf_iff_prefix.1 hprefix
            obtain rfl : rest = names := by simpa using heq
            exact ⟨data, file?_eq_some_iff.2 (h.mem_entries_iff.1 hm).2⟩
          · cases heq
        | directory | device _ | link _ => cases heq
      · rintro ⟨data, hfile⟩
        have hentry := file?_eq_some_iff.1 hfile
        have hne : top ++ names ≠ [] := by
          intro he
          rw [he, entry?_nil] at hentry
          cases hentry
        exact ⟨(top ++ names, .file data), h.mem_entries_iff.2 ⟨hne, hentry⟩, by simp⟩

theorem Rooted.directory (h : disk.Rooted) (he : disk.entry? (place ++ names) = some entry)
    (hne : names ≠ []) : disk.entry? place = some .directory := by
  induction names using List.reverseRecOn generalizing entry with
  | nil => exact absurd rfl hne
  | append_singleton before name ih =>
    rw [← List.append_assoc] at he
    have habove := h _ _ _ he
    by_cases hb : before = []
    · rwa [hb, List.append_nil] at habove
    · exact ih habove hb

/-- **What is on a tree is below directories.** -/
theorem Rooted.solid (h : disk.Rooted) (he : disk.entry? (place ++ names) = some entry)
    (hne : names ≠ []) : disk.Solid place := by
  rintro above ⟨more, rfl⟩
  rw [List.append_assoc] at he
  exact h.directory he (by simp [hne])

/-! ### Ways in two parts -/

theorem destinationFrom_zero_link {piece target : String} (hi : ¬ IsIdle piece) (hu : piece ≠ "..")
    (h : disk.link? (place ++ [piece]) = some target) :
    disk.destinationFrom 0 place (piece :: rest) = none := by
  rw [destinationFrom, course, if_neg hi, if_neg hu, h]

/-- When a way along the pieces at the front leads somewhere, every longer way goes on from
there, and otherwise no longer way leads anywhere. -/
def Splits (disk : Disk) (links : Nat) (place : Place) (front : List String) : Prop :=
  (disk.destinationFrom links place front = none ∧
    ∀ rest, disk.destinationFrom links place (front ++ rest) = none) ∨
  ∃ left middle, disk.destinationFrom links place front = some middle ∧
    ∀ rest, disk.destinationFrom links place (front ++ rest) =
      disk.destinationFrom left middle rest

/-- Between two links the pieces are taken one by one. -/
theorem splits_of_link (hlink : ∀ place piece front target, ¬ IsIdle piece → piece ≠ ".." →
      disk.link? (place ++ [piece]) = some target → disk.Splits links place (piece :: front))
    (place : Place) (front : List String) : disk.Splits links place front := by
  induction front generalizing place with
  | nil => exact Or.inr ⟨links, place, destinationFrom_nil, fun _ => rfl⟩
  | cons piece front ih =>
    by_cases hi : IsIdle piece
    · simp only [Splits, List.cons_append, destinationFrom_idle hi]
      exact ih place
    by_cases hu : piece = ".."
    · subst hu
      simp only [Splits, List.cons_append, destinationFrom_up]
      exact ih _
    cases hl : disk.link? (place ++ [piece]) with
    | none =>
      simp only [Splits, List.cons_append, destinationFrom_name hi hu hl]
      exact ih _
    | some target => exact hlink place piece front target hi hu hl

/-- **A way in two parts.**  When both lead somewhere, so does the first, and the second
starts where that leads. -/
theorem destinationFrom_append (front : List String) (links : Nat) (place : Place) :
    disk.Splits links place front := by
  -- a link puts other pieces in front, so the induction is on the links
  induction links generalizing place front with
  | zero =>
    exact splits_of_link (fun place piece front target hi hu hl =>
      Or.inl ⟨destinationFrom_zero_link hi hu hl,
        fun rest => destinationFrom_zero_link hi hu hl⟩) place front
  | succ links ihl =>
    refine splits_of_link (fun place piece front target hi hu hl => ?_) place front
    simp only [Splits, List.cons_append, destinationFrom_link hi hu hl, ← List.append_assoc]
    exact ihl _ _

/-- Where there is no link, names lead straight on. -/
theorem destinationFrom_names (hn : ∀ name ∈ names, IsLabel name)
    (hl : ∀ below, below <+: names → below ≠ [] → disk.link? (top ++ below) = none) :
    disk.destinationFrom links top names = some (top ++ names) := by
  induction names generalizing top with
  | nil => rw [destinationFrom_nil, List.append_nil]
  | cons name names ih =>
    have hname := hn name List.mem_cons_self
    rw [destinationFrom_name hname.not_idle hname.ne_up (hl [name] (by simp) (by simp)),
      ih (fun other ho => hn other (List.mem_cons_of_mem _ ho)) fun below hb hne => ?_]
    · rw [List.append_assoc, List.singleton_append]
    · rw [List.append_assoc]
      exact hl ([name] ++ below) (by simpa using hb) (by simp)

/-- **Below a directory without links in it**, paths lead where their names say. -/
theorem destination_below {base : Path} (hbase : disk.destination base = some top)
    (habs : path.isAbsolute = base.isAbsolute) (hmoves : path.moves = base.moves ++ names)
    (hn : ∀ name ∈ names, IsLabel name)
    (hl : ∀ below, below <+: names → below ≠ [] → disk.link? (top ++ below) = none) :
    disk.destination path = some (top ++ names) := by
  rw [destination_eq_moves] at hbase
  rw [destination_eq_moves, hmoves, origin_congr habs]
  rcases disk.destinationFrom_append base.moves linkLimit (base.origin disk.here) with
    ⟨hnone, -⟩ | ⟨left, middle, hmiddle, hrest⟩
  · rw [hbase] at hnone
    cases hnone
  · obtain rfl : top = middle := Option.some.inj (hbase.symm.trans hmiddle)
    rw [hrest]
    exact destinationFrom_names hn hl

end StyleTokens.Disk

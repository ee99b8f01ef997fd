/-
What writing changes.

Files come and get new bytes, and directories come; nothing else happens to a disk
when files are written and directories are made.

* `Disk.Develops` — a disk and what may become of it so; `Develops.destination_eq` —
  paths lead where they led;
* `read_eq_ok_iff`, `read_plain` — what a path gives to read, and its plain form too;
* `read_of_remove` — what is left when something was removed;
* `Disk.Touched` — only the files at some places were touched; `Touched.read` — what
  other paths give to read stays;
* `write_cases`, `create_cases`, `makeDirectory_cases` — all that each of them can have
  done when it succeeded;
* `write_spec`, `create_spec` — a file that is written changes the place that its path
  leads to, and no other;
* `Disk.Furnished`, `makeDirectories_spec` — directories come where nothing was.

Design notes: as links neither come nor go, the places that paths lead to can be told
before anything is written.
-/
import StyleTokens.Proofs.Disk.Destination
import StyleTokens.Proofs.Text.Boundary

namespace StyleTokens

/-- What may become of what is at a place. -/
inductive Entry.Develops : Option Entry → Option Entry → Prop
  | keep (entry : Option Entry) : Develops entry entry
  | rewrite (old new : ByteArray) : Develops (some (.file old)) (some (.file new))
  | file (data : ByteArray) : Develops none (some (.file data))
  | directory : Develops none (some .directory)

theorem Entry.Develops.trans {a b c : Option Entry} (h : Entry.Develops a b)
    (h' : Entry.Develops b c) : Entry.Develops a c := by
  cases h with
  | keep => exact h'
  | rewrite old new =>
    cases h' with
    | keep => exact .rewrite old new
    | rewrite _ newer => exact .rewrite old newer
  | file data =>
    cases h' with
    | keep => exact .file data
    | rewrite _ newer => exact .file newer
  | directory =>
    cases h' with
    | keep => exact .directory

/-- A path, those that it goes through, and itself. -/
inductive Path.Through : Path → Path → Prop
  | self (path : Path) : Through path path
  | up {path parent other : Path} (h : path.parent? = some parent) (next : Through parent other) :
    Through path other

namespace Disk

variable {disk later last : Disk} {followLast : Bool} {links : Nat} {place : Place}
  {pieces : List String} {found : Found} {path : Path} {data : ByteArray}

/-- What may become of a disk when files are written and directories are made. -/
structure Develops (disk later : Disk) : Prop where
  here : later.here = disk.here
  entry : ∀ place, Entry.Develops ( disk.entry? place) ( later.entry? place)

namespace Develops

theorem refl (disk : Disk) : disk.Develops disk :=
  ⟨rfl, fun _ => .keep _⟩

theorem trans (h : disk.Develops later) (h' : later.Develops last) : disk.Develops last :=
  ⟨h'.here.trans h.here, fun place => (h.entry place).trans (h'.entry place)⟩

theorem directory (h : disk.Develops later) (hd : disk.entry? place = some .directory) :
    later.entry? place = some .directory := by
  have hdev := h.entry place
  rw [hd] at hdev
  generalize later.entry? place = after at hdev
  cases hdev
  rfl

/-- Devices neither come nor go. -/
theorem device_iff {device : Device} (h : disk.Develops later) :
    later.entry? place = some (.device device) ↔ disk.entry? place = some (.device device) := by
  have hdev := h.entry place
  generalize disk.entry? place = before at hdev
  generalize later.entry? place = after at hdev
  cases hdev <;> simp

theorem link?_eq (h : disk.Develops later) (place : Place) :
    later.link? place = disk.link? place := by
  have hdev := h.entry place
  rw [link?, link?]
  generalize disk.entry? place = before at hdev
  generalize later.entry? place = after at hdev
  cases hdev <;> rfl

/-- **Paths lead where they led.** -/
theorem destination_eq (h : disk.Develops later) (path : Path) :
    later.destination path = disk.destination path :=
  destination_congr h.link?_eq h.here path

theorem solid (h : disk.Develops later) (hs : disk.Solid place) : later.Solid place :=
  fun above ha => h.directory (hs above ha)

theorem solid_here (h : disk.Develops later) (hs : disk.Solid disk.here) :
    later.Solid later.here :=
  h.here ▸ h.solid hs

/-- A walk leads to the same place later, to what is there then. -/
theorem walk (h : disk.Develops later) {entry : Entry}
    (hw : disk.Walk followLast links place pieces found)
    (he : later.entry? found.place = some entry) (hlink : ∀ target, entry ≠ .link target) :
    later.Walk followLast links place pieces (.at found.place entry) := by
  induction hw with
  | arrive _ => exact .arrive he
  | idle hi _ ih => exact .idle hi (ih he)
  | up _ ih => exact .up (ih he)
  | missing hn _ =>
    -- what was missing may be a directory now, and the walk ends in it
    by_cases hdir : entry = .directory
    · subst hdir
      exact .enter hn he (.arrive he)
    · exact .leaf hn he hdir hlink
  | enter hn hd _ ih => exact .enter hn (h.directory hd) (ih he)
  | @leaf _ place piece old hn hold hdir _ =>
    have hdev := h.entry (place ++ [piece])
    have he' : later.entry? (place ++ [piece]) = some entry := he
    rw [hold, he'] at hdev
    refine .leaf hn he ?_ hlink
    rintro rfl
    cases hdev
    exact hdir rfl
  | @lastLink _ place piece target _ _ hl =>
    have hl' := h.link?_eq (place ++ [piece])
    rw [link?_eq_some_iff.2 hl, link?_eq_some_iff] at hl'
    have he' : later.entry? (place ++ [piece]) = some entry := he
    rw [hl'] at he'
    cases he'
    exact absurd rfl (hlink target)
  | @turn _ place piece target _ _ hn hl hgoes _ ih =>
    have hl' := h.link?_eq (place ++ [piece])
    rw [link?_eq_some_iff.2 hl, link?_eq_some_iff] at hl'
    exact .turn hn hl' hgoes (ih he)

/-- What `find` finds, it finds at the same place later. -/
theorem find (h : disk.Develops later) {entry : Entry}
    (hf : disk.find followLast path = .ok found) (he : later.entry? found.place = some entry)
    (hlink : ∀ target, entry ≠ .link target) :
    later.find followLast path = .ok (.at found.place entry) := by
  obtain ⟨ha, hw⟩ := find_eq_ok_iff.1 hf
  refine find_eq_ok_iff.2 ⟨ha, ?_⟩
  rw [h.here]
  exact h.walk hw he hlink

end Develops

/-! ### What paths give to read -/

/-- What a path gives to read: the bytes of a file, and no bytes from a device. -/
theorem read_eq_ok_iff : disk.read path = .ok data ↔
    ∃ place entry, disk.find true path = .ok (.at place entry) ∧
      (entry = .file data ∨ data = .empty ∧ ∃ device, entry = .device device) := by
  unfold read entryAt
  constructor
  · intro h
    cases hf : disk.find true path with
    | error cause =>
      rw [hf] at h
      cases h
    | ok found =>
      rw [hf] at h
      cases found with
      | absent parent name => cases h
      | «at» place entry =>
        refine ⟨place, entry, rfl, ?_⟩
        cases entry with
        | file bytes =>
          cases h
          exact Or.inl rfl
        | device device =>
          cases h
          exact Or.inr ⟨rfl, device, rfl⟩
        | directory => cases h
        | link target => cases h
  · rintro ⟨place, entry, hf, rfl | ⟨rfl, device, rfl⟩⟩
    · rw [hf]
      rfl
    · rw [hf]
      rfl

theorem size_of_read (h : disk.read path = .ok data) : disk.size path = .ok data.size := by
  obtain ⟨place, entry, hf, rfl | ⟨rfl, device, rfl⟩⟩ := read_eq_ok_iff.1 h
  · rw [size, entryAt, hf]
    rfl
  · rw [size, entryAt, hf]
    rfl

theorem isFile_iff : disk.isFile path = true ↔
    ∃ place data, disk.find true path = .ok (.at place (.file data)) := by
  rw [isFile, entryAt]
  rcases disk.find true path with cause | found
  · simp [bind, Except.bind, Except.toOption]
  · cases found with
    | absent parent name => simp [bind, Except.bind, Except.toOption, throw, throwThe,
        MonadExceptOf.throw]
    | «at» place entry =>
      cases entry <;> simp [bind, Except.bind, Except.toOption, pure, Except.pure]

/-- A path that gives bytes is the path of a file. -/
theorem isFile_of_read (h : disk.read path = .ok data) (hne : data ≠ .empty) :
    disk.isFile path = true := by
  obtain ⟨place, entry, hf, rfl | ⟨rfl, -⟩⟩ := read_eq_ok_iff.1 h
  · exact isFile_iff.2 ⟨place, data, hf⟩
  · exact absurd rfl hne

/-- The path of a file gives the bytes of the file where it leads to. -/
theorem file?_of_isFile (h : disk.isFile path = true) (hr : disk.read path = .ok data) :
    ∃ place, disk.destination path = some place ∧ disk.file? place = some data := by
  obtain ⟨place, old, hf⟩ := isFile_iff.1 h
  obtain ⟨other, entry, hf', rfl | ⟨-, device, rfl⟩⟩ := read_eq_ok_iff.1 hr
  · exact ⟨other, destination_of_find hf' (by simp),
      file?_eq_some_iff.2 (find_eq_ok_iff.1 hf').2.entry?_at⟩
  · rw [hf] at hf'
    cases hf'

theorem read_of_file? (h : disk.isFile path = true) (hd : disk.destination path = some place)
    (hfile : disk.file? place = some data) : disk.read path = .ok data := by
  obtain ⟨other, old, hf⟩ := isFile_iff.1 h
  obtain rfl : other = place :=
    Option.some.inj ((destination_of_find hf (by simp)).symm.trans hd)
  have hat := file?_eq_some_iff.2 (find_eq_ok_iff.1 hf).2.entry?_at
  obtain rfl : old = data := Option.some.inj (hat.symm.trans hfile)
  exact read_eq_ok_iff.2 ⟨other, _, hf, Or.inl rfl⟩

/-- The path of a file stays one. -/
theorem Develops.isFile (h : disk.Develops later) (hf : disk.isFile path = true) :
    later.isFile path = true := by
  obtain ⟨place, old, hf⟩ := isFile_iff.1 hf
  have hdev := h.entry place
  have hold : disk.entry? place = some (.file old) := (find_eq_ok_iff.1 hf).2.entry?_at
  rw [hold] at hdev
  generalize hnow : later.entry? place = now at hdev
  cases hdev with
  | keep => exact isFile_iff.2 ⟨place, old, h.find hf hnow (by simp)⟩
  | rewrite _ new => exact isFile_iff.2 ⟨place, new, h.find hf hnow (by simp)⟩

/-- A path in plain form leads to the same file or device. -/
theorem find_plain {entry : Entry} (hs : disk.Solid disk.here)
    (h : disk.find true path = .ok (.at place entry)) (hdir : entry ≠ .directory) :
    disk.find true ⟨path.plain⟩ = .ok (.at place entry) := by
  obtain ⟨ha, hw⟩ := find_eq_ok_iff.1 h
  have hlast := hw.endsWithName (hs.origin path) hdir
  have hmoves : path.moves ≠ [] := hlast.filter_ne_nil
  have hpieces := Path.stretches_plain path (Or.inr hmoves)
  have habs := Path.isAbsolute_plain hmoves
  refine find_eq_ok_iff.2 ⟨?_, ?_⟩
  · exact {
      ne_empty := fun he => by
        -- the empty text has a single piece, which leads nowhere
        obtain ⟨move, hmove⟩ := List.exists_mem_of_ne_nil _ hmoves
        have hmem : move ∈ Path.stretches ⟨path.plain⟩ := by
          rw [hpieces]
          exact List.mem_append_right _ hmove
        rw [show (⟨path.plain⟩ : Path) = ⟨""⟩ from congrArg Path.mk he] at hmem
        obtain rfl : move = "" := List.mem_singleton.1 hmem
        simpa [Path.IsIdle] using (List.mem_filter.1 hmove).2
      no_nul := fun hn => ha.no_nul (path.plain_sublist.mem hn)
      short := by
        have := Text.byteLength_le_of_sublist path.plain_sublist
        have hshort := ha.short
        rw [Text.utf8ByteSize_eq] at hshort ⊢
        exact Nat.le_trans this hshort }
  · have hwalk := hw.filter hlast
    rw [hpieces, Path.origin, habs]
    split
    · next hroot =>
      rw [Path.origin, if_pos hroot] at hwalk
      exact .idle (Or.inl rfl) hwalk
    · next hroot =>
      rw [Path.origin, if_neg hroot] at hwalk
      exact hwalk

theorem read_plain (hs : disk.Solid disk.here) (h : disk.read path = .ok data) :
    disk.read ⟨path.plain⟩ = .ok data := by
  obtain ⟨place, entry, hf, hentry⟩ := read_eq_ok_iff.1 h
  refine read_eq_ok_iff.2 ⟨place, entry, find_plain hs hf ?_, hentry⟩
  rcases hentry with rfl | ⟨-, device, rfl⟩ <;> simp

/-- The bytes where a path leads to, whether or not the directories on its way are there;
a device has none. -/
def BytesAt (disk : Disk) (path : Path) (data : ByteArray) : Prop :=
  ∃ place, disk.destination path = some place ∧ (disk.file? place = some data ∨
    data = .empty ∧ ∃ device, disk.entry? place = some (.device device))

theorem bytesAt_of_read (h : disk.read path = .ok data) : disk.BytesAt path data := by
  obtain ⟨place, entry, hf, hentry⟩ := read_eq_ok_iff.1 h
  have hat := (find_eq_ok_iff.1 hf).2.entry?_at
  rcases hentry with rfl | ⟨rfl, device, rfl⟩
  · exact ⟨place, destination_of_find hf (by simp), Or.inl (file?_eq_some_iff.2 hat)⟩
  · exact ⟨place, destination_of_find hf (by simp), Or.inr ⟨rfl, device, hat⟩⟩

theorem BytesAt.unique {other : ByteArray} (h : disk.BytesAt path data)
    (h' : disk.BytesAt path other) : data = other := by
  obtain ⟨place, hd, hbytes⟩ := h
  obtain ⟨place', hd', hbytes'⟩ := h'
  obtain rfl : place = place' := Option.some.inj (hd.symm.trans hd')
  simp only [file?_eq_some_iff] at hbytes hbytes'
  rcases hbytes with hfile | ⟨rfl, device, hdevice⟩
  · rcases hbytes' with hfile' | ⟨rfl, device, hdevice⟩
    · rw [hfile] at hfile'
      cases hfile'
      rfl
    · rw [hfile] at hdevice
      cases hdevice
  · rcases hbytes' with hfile | ⟨rfl, -⟩
    · rw [hfile] at hdevice
      cases hdevice
    · rfl

/-! ### What stays -/

/-- A walk to something leads there on a disk that has all that was there. -/
theorem Walk.of_stays {target : Place} {entry : Entry}
    (hstays : ∀ place entry, disk.entry? place = some entry → later.entry? place = some entry)
    (h : disk.Walk followLast links place pieces (.at target entry)) :
    later.Walk followLast links place pieces (.at target entry) := by
  generalize hf : Found.at target entry = found at h ⊢
  induction h with
  | arrive he => exact .arrive (hstays _ _ he)
  | idle hi _ ih => exact .idle hi (ih hf)
  | up _ ih => exact .up (ih hf)
  | missing _ _ => cases hf
  | enter hn he _ ih => exact .enter hn (hstays _ _ he) (ih hf)
  | leaf hn he hdir hlink => exact .leaf hn (hstays _ _ he) hdir hlink
  | lastLink hstops hn he => exact .lastLink hstops hn (hstays _ _ he)
  | turn hn he hgoes _ ih => exact .turn hn (hstays _ _ he) hgoes (ih hf)

section Stays

variable (hhere : later.here = disk.here)
  (hstays : ∀ place entry, disk.entry? place = some entry → later.entry? place = some entry)

include hhere hstays

theorem find_of_stays {entry : Entry} (h : disk.find followLast path = .ok (.at place entry)) :
    later.find followLast path = .ok (.at place entry) := by
  obtain ⟨ha, hw⟩ := find_eq_ok_iff.1 h
  refine find_eq_ok_iff.2 ⟨ha, ?_⟩
  rw [hhere]
  exact hw.of_stays hstays

theorem read_of_stays (h : disk.read path = .ok data) : later.read path = .ok data := by
  obtain ⟨place, entry, hf, hentry⟩ := read_eq_ok_iff.1 h
  exact read_eq_ok_iff.2 ⟨place, entry, find_of_stays hhere hstays hf, hentry⟩

end Stays

/-! ### Putting something at a place, and taking it away -/

theorem lookup_filter (keeps : Place → Bool) (entries : List (Place × Entry)) (other : Place) :
    (entries.filter (keeps ·.1)).lookup other =
      if keeps other then entries.lookup other else none := by
  induction entries with
  | nil => simp
  | cons first others ih =>
    obtain ⟨at', entry⟩ := first
    by_cases hp : at' = other
    · subst hp
      cases hk : keeps at' <;> simp [ih, hk]
    · have hne : (other == at') = false := beq_false_of_ne (Ne.symm hp)
      cases hk : keeps at' <;> simp [List.lookup_cons, ih, hk, hne]

theorem entry?_set (hp : place ≠ []) (entry : Entry) (other : Place) :
    entry? (disk.set place entry) other =
      if other = place then some entry else disk.entry? other := by
  rw [ entry?, entry?]
  by_cases ho : other = []
  · rw [if_pos ho, if_pos ho, if_neg (ho ▸ hp.symm)]
  · rw [if_neg ho, if_neg ho]
    show ((place, entry) :: disk.entries.filter (·.1 ≠ place)).lookup other = _
    by_cases h : other = place
    · rw [h, if_pos rfl, List.lookup_cons, beq_self_eq_true]
    · rw [if_neg h, List.lookup_cons, beq_false_of_ne h]
      exact (lookup_filter (· ≠ place) _ _).trans (if_pos (by simpa using h))

/-- What is there when something was removed was there before. -/
theorem remove_spec (h : disk.remove path = .ok later) : later.here = disk.here ∧
    ∀ place entry, later.entry? place = some entry → disk.entry? place = some entry := by
  unfold remove at h
  cases hf : disk.find false (withoutSlashes path) with
  | error cause =>
    rw [hf] at h
    cases h
  | ok found =>
    rw [hf] at h
    cases found with
    | absent parent name => cases h
    | «at» gone _ =>
      cases h
      refine ⟨rfl, fun place entry he => ?_⟩
      rw [ entry?] at he ⊢
      by_cases hp : place = []
      · rwa [if_pos hp] at he ⊢
      · rw [if_neg hp, lookup_filter (!gone.isPrefixOf ·)] at he
        rw [if_neg hp]
        split at he
        · exact he
        · cases he

/-- **What can be read when something was removed could be read before.** -/
theorem read_of_remove {other : Path} (h : disk.remove path = .ok later)
    (hr : later.read other = .ok data) : disk.read other = .ok data :=
  read_of_stays (remove_spec h).1.symm (remove_spec h).2 hr

/-- What is put at a place comes there and changes nothing else. -/
theorem develops_set {entry : Entry} (hp : place ≠ [])
    (h : Entry.Develops ( disk.entry? place) (some entry)) : disk.Develops (disk.set place entry) := by
  refine ⟨rfl, fun other => ?_⟩
  rw [entry?_set hp]
  split
  · next ho => exact ho ▸ h
  · exact .keep _

/-! ### Writing files -/

/-- A disk and what has become of it when only the files at some places were touched. -/
structure Touched (disk later : Disk) (places : Place → Prop) : Prop extends
    disk.Develops later where
  file?_eq : ∀ place, ¬ places place → later.file? place = disk.file? place

namespace Touched

variable {places places' : Place → Prop}

theorem refl (disk : Disk) (places : Place → Prop) : disk.Touched disk places :=
  ⟨.refl disk, fun _ _ => rfl⟩

theorem mono (h : disk.Touched later places) (hp : ∀ place, places place → places' place) :
    disk.Touched later places' :=
  ⟨h.toDevelops, fun place hn => h.file?_eq place fun hm => hn (hp place hm)⟩

theorem trans (h : disk.Touched later places) (h' : later.Touched last places) :
    disk.Touched last places :=
  ⟨h.toDevelops.trans h'.toDevelops,
    fun place hn => (h'.file?_eq place hn).trans (h.file?_eq place hn)⟩

/-- **What a path gives to read stays** as long as its place is not touched. -/
theorem read (h : disk.Touched later places) (hr : disk.read path = .ok data)
    (hn : ∀ place, disk.destination path = some place → ¬ places place) :
    later.read path = .ok data := by
  obtain ⟨place, entry, hf, hentry⟩ := read_eq_ok_iff.1 hr
  have hat := (find_eq_ok_iff.1 hf).2.entry?_at
  rcases hentry with rfl | ⟨rfl, device, rfl⟩
  · have hkept := h.file?_eq place (hn place (destination_of_find hf (by simp)))
    rw [file?_eq_some_iff.2 hat] at hkept
    exact read_eq_ok_iff.2 ⟨place, _, h.find hf (file?_eq_some_iff.1 hkept) (by simp), Or.inl rfl⟩
  · exact read_eq_ok_iff.2
      ⟨place, _, h.find hf (h.device_iff.2 hat) (by simp), Or.inr ⟨rfl, device, rfl⟩⟩

/-- So do the bytes where it leads to. -/
theorem bytesAt_iff (h : disk.Touched later places)
    (hn : ∀ place, disk.destination path = some place → ¬ places place) :
    later.BytesAt path data ↔ disk.BytesAt path data := by
  refine exists_congr fun place => ?_
  rw [h.destination_eq]
  refine and_congr_right fun hd => ?_
  rw [h.file?_eq place (hn place hd)]
  simp only [h.device_iff]

end Touched

/-- A file put where there was one, or nothing. -/
theorem touched_set (data : ByteArray) (hp : place ≠ [])
    (h : disk.entry? place = none ∨ ∃ old, disk.entry? place = some (.file old)) :
    disk.Touched (disk.set place (.file data)) (· = place) := by
  refine ⟨develops_set hp ?_, fun other hn => file?_congr ?_⟩
  · rcases h with h | ⟨old, h⟩
    · rw [h]
      exact .file data
    · rw [h]
      exact .rewrite old data
  · rw [entry?_set hp, if_neg hn]

/-- A path with a slash at its end is the path of no file. -/
theorem target_eq_ok_iff : disk.target followLast path = .ok found ↔
    withoutSlashes path = path ∧ disk.find followLast path = .ok found := by
  unfold target
  by_cases hp : withoutSlashes path = path
  · simp [hp]
  · simp only [ne_eq, hp, not_false_eq_true, if_true, false_and, iff_false]
    -- whatever the walk finds, the path is refused
    have hrefused (walked : Except IoCause Found) :
        (do discard walked
            throw IoCause.isDirectory
            disk.find followLast path) ≠ Except.ok found := by
      cases walked <;> exact fun h => nomatch h
    cases piecesOf (withoutSlashes path) with
    | error cause => exact fun h => nomatch h
    | ok pieces => exact hrefused _

/-- What is found at the root is the root, a directory. -/
theorem Walk.eq_root (h : disk.Walk followLast links place pieces found) (hp : found.place = []) :
    found = .at [] .directory := by
  cases found with
  | absent parent name => exact absurd hp (by simp [Found.place])
  | «at» other entry =>
    obtain rfl : other = [] := hp
    rw [Option.some.inj (h.entry?_at.symm.trans entry?_nil)]

/-- A file is put where a path leads to a file or to nothing. -/
theorem touched_of_find (data : ByteArray) (hf : disk.find followLast path = .ok found)
    (hfile : ∀ place entry, found = .at place entry → ∃ old, entry = .file old) :
    disk.Touched (disk.set found.place (.file data)) (disk.destination path = some ·) ∧
      (disk.set found.place (.file data)).find followLast path =
        .ok (.at found.place (.file data)) := by
  have hwalk := (find_eq_ok_iff.1 hf).2
  have hp : found.place ≠ [] := fun hp => by
    obtain ⟨_, hdir⟩ := hfile _ _ (hwalk.eq_root hp)
    cases hdir
  have hold : disk.entry? found.place = none ∨ ∃ old, disk.entry? found.place = some (.file old) := by
    cases found with
    | absent parent name => exact Or.inl hwalk.entry?_absent
    | «at» place entry =>
      obtain ⟨old, rfl⟩ := hfile _ _ rfl
      exact Or.inr ⟨old, hwalk.entry?_at⟩
  have hdest : disk.destination path = some found.place :=
    destination_of_find hf fun other target h => by
      obtain ⟨_, hlink⟩ := hfile _ _ h
      cases hlink
  have ht := touched_set data hp hold
  refine ⟨ht.mono fun place h => h ▸ hdest, ?_⟩
  exact ht.find hf (by rw [entry?_set hp, if_pos rfl]) (by simp)

/-- A path that leads to no device, so that what is written there can be read again. -/
def Keeps (disk : Disk) (path : Path) : Prop :=
  ∀ place device, disk.destination path = some place → disk.entry? place ≠ some (.device device)

theorem Develops.keeps_iff (h : disk.Develops later) : later.Keeps path ↔ disk.Keeps path := by
  simp only [Keeps, h.destination_eq, ne_eq, h.device_iff]

theorem keeps_of_destination (hd : disk.destination path = some place)
    (hn : ∀ device, disk.entry? place ≠ some (.device device)) : disk.Keeps path := by
  intro other device ho
  obtain rfl : place = other := Option.some.inj (hd.symm.trans ho)
  exact hn device

theorem keeps_of_file? (hd : disk.destination path = some place)
    (hfile : disk.file? place = some data) : disk.Keeps path :=
  keeps_of_destination hd fun device => by simp [file?_eq_some_iff.1 hfile]

theorem keeps_of_isFile (h : disk.isFile path = true) :
    ∃ place, disk.destination path = some place ∧ disk.Keeps path := by
  obtain ⟨place, data, hf⟩ := isFile_iff.1 h
  have hd := destination_of_find hf (by simp)
  exact ⟨place, hd, keeps_of_file? hd (file?_eq_some_iff.2 (find_eq_ok_iff.1 hf).2.entry?_at)⟩

/-- All that a write can have done when it succeeded: the file is put where the path leads,
but for a device, which takes the data and changes nothing. -/
theorem write_cases (h : disk.write path data = .ok later) :
    ∃ found, disk.find true path = .ok found ∧
      ((later = disk.set found.place (.file data) ∧ ∀ place entry, found = .at place entry →
          (∃ old, entry = .file old) ∨ ∃ target, entry = .link target) ∨
        (later = disk ∧ ∃ place device, found = .at place (.device device))) := by
  unfold write at h
  cases hf : disk.target true path with
  | error cause =>
    rw [hf] at h
    cases h
  | ok found =>
    rw [hf] at h
    refine ⟨found, (target_eq_ok_iff.1 hf).2, ?_⟩
    cases found with
    | absent parent name =>
      cases h
      exact Or.inl ⟨rfl, fun _ _ hat => nomatch hat⟩
    | «at» place entry =>
      cases entry with
      | directory => cases h
      | file old =>
        cases h
        refine Or.inl ⟨rfl, ?_⟩
        rintro _ _ ⟨⟩
        exact Or.inl ⟨old, rfl⟩
      | link target =>
        cases h
        refine Or.inl ⟨rfl, ?_⟩
        rintro _ _ ⟨⟩
        exact Or.inr ⟨target, rfl⟩
      | device device =>
        obtain rfl : disk = later := by
          simp only [pure, Except.pure, bind, Except.bind] at h
          split at h
          · cases h
          · exact Except.ok.inj h
        exact Or.inr ⟨rfl, place, device, rfl⟩

/-- From a directory below directories only, every link is followed, so that what was
replaced was a file. -/
theorem write_cases_of_solid (hs : disk.Solid disk.here) (h : disk.write path data = .ok later) :
    ∃ found, disk.find true path = .ok found ∧
      ((later = disk.set found.place (.file data) ∧
          ∀ place entry, found = .at place entry → ∃ old, entry = .file old) ∨
        (later = disk ∧ ∃ place device, found = .at place (.device device))) := by
  obtain ⟨found, hf, ⟨hlater, hold⟩ | hdevice⟩ := write_cases h
  · refine ⟨found, hf, Or.inl ⟨hlater, fun place entry hat => ?_⟩⟩
    rcases hold place entry hat with hfile | ⟨target, rfl⟩
    · exact hfile
    · subst hat
      exact (Walk.not_link (hs.origin path) (find_eq_ok_iff.1 hf).2).elim
  · exact ⟨found, hf, Or.inr hdevice⟩

/-- **Writing a file touches the place that its path leads to**, and no other.  The path
gives the bytes then, unless a device has swallowed them. -/
theorem write_spec (hs : disk.Solid disk.here) (h : disk.write path data = .ok later) :
    disk.Touched later (disk.destination path = some ·) ∧
      (later.read path = .ok data ∨
        later = disk ∧ later.read path = .ok .empty ∧ ¬ disk.Keeps path) := by
  obtain ⟨found, hf, ⟨rfl, hfile⟩ | ⟨rfl, place, device, rfl⟩⟩ := write_cases_of_solid hs h
  · obtain ⟨ht, hfind⟩ := touched_of_find data hf hfile
    exact ⟨ht, Or.inl (read_eq_ok_iff.2 ⟨_, _, hfind, Or.inl rfl⟩)⟩
  · exact ⟨.refl _ _, Or.inr ⟨rfl, read_eq_ok_iff.2 ⟨place, _, hf, Or.inr ⟨rfl, device, rfl⟩⟩,
      fun hk => hk place device (destination_of_find hf (by simp))
        (find_eq_ok_iff.1 hf).2.entry?_at⟩⟩

/-- What is written where no device is comes there. -/
theorem file?_of_write (hs : disk.Solid disk.here) (h : disk.write path data = .ok later)
    (hk : disk.Keeps path) (hd : disk.destination path = some place) :
    later.file? place = some data := by
  obtain ⟨htouched, hread | ⟨-, -, hswallowed⟩⟩ := write_spec hs h
  · obtain ⟨other, entry, hf, rfl | ⟨-, device, rfl⟩⟩ := read_eq_ok_iff.1 hread
    · obtain rfl : other = place := Option.some.inj
        ((destination_of_find hf (by simp)).symm.trans ((htouched.destination_eq path).trans hd))
      exact file?_eq_some_iff.2 (find_eq_ok_iff.1 hf).2.entry?_at
    · exact absurd (find_eq_ok_iff.1 hf).2.entry?_at
        (htouched.keeps_iff.2 hk other device (destination_of_find hf (by simp)))
  · exact absurd hk hswallowed

/-- A walk that does not follow a link at its end finds what one finds that does, unless
it has stopped at a link. -/
theorem Walk.follow_last (h : disk.Walk followLast links place pieces found)
    (hlink : ∀ other target, found ≠ .at other (.link target)) :
    disk.Walk true links place pieces found := by
  induction h with
  | arrive he => exact .arrive he
  | idle hi _ ih => exact .idle hi (ih hlink)
  | up _ ih => exact .up (ih hlink)
  | missing hn he => exact .missing hn he
  | enter hn he _ ih => exact .enter hn he (ih hlink)
  | leaf hn he hdir hl => exact .leaf hn he hdir hl
  | lastLink _ _ _ => exact absurd rfl (hlink _ _)
  | turn hn he _ _ ih => exact .turn hn he (fun _ => rfl) (ih hlink)

theorem add_eq_ok_iff {entry : Entry} : disk.add found entry = .ok later ↔
    ∃ parent name, found = .absent parent name ∧ disk.set (parent ++ [name]) entry = later := by
  cases found with
  | «at» place old => simp [add, throw, throwThe, MonadExceptOf.throw]
  | absent parent name =>
    constructor
    · intro h
      cases h
      exact ⟨parent, name, rfl, rfl⟩
    · rintro ⟨_, _, hf, rfl⟩
      cases hf
      rfl

/-- All that creating a file can have done when it succeeded. -/
theorem create_cases (h : disk.create path data = .ok later) :
    ∃ parent name, disk.find false path = .ok (.absent parent name) ∧
      later = disk.set (parent ++ [name]) (.file data) := by
  unfold create at h
  cases hf : disk.target false path with
  | error cause =>
    rw [hf] at h
    cases h
  | ok found =>
    rw [hf] at h
    obtain ⟨parent, name, rfl, rfl⟩ := add_eq_ok_iff.1 h
    exact ⟨parent, name, (target_eq_ok_iff.1 hf).2, rfl⟩

/-- **Creating a file touches the place that its path leads to**, and no other.  Nothing
was there before. -/
theorem create_spec (h : disk.create path data = .ok later) :
    disk.Touched later (disk.destination path = some ·) ∧ later.read path = .ok data ∧
      ∃ place, disk.destination path = some place ∧ disk.entry? place = none := by
  obtain ⟨parent, name, hf, rfl⟩ := create_cases h
  obtain ⟨ht, hfind⟩ := touched_of_find data hf fun _ _ hat => nomatch hat
  obtain ⟨ha, hwalk⟩ := find_eq_ok_iff.1 hfind
  refine ⟨ht, read_eq_ok_iff.2 ⟨_, _, find_eq_ok_iff.2 ⟨ha, hwalk.follow_last (by simp)⟩,
    Or.inl rfl⟩, _, destination_of_find hf (by simp), (find_eq_ok_iff.1 hf).2.entry?_absent⟩

/-! ### Making directories -/

/-- A disk and what has become of it when directories were made at some places. -/
structure Furnished (disk later : Disk) (places : Place → Prop) : Prop where
  here : later.here = disk.here
  entry : ∀ place, later.entry? place = disk.entry? place ∨
    (places place ∧ disk.entry? place = none ∧ later.entry? place = some .directory)

namespace Furnished

variable {places places' : Place → Prop}

theorem refl (disk : Disk) (places : Place → Prop) : disk.Furnished disk places :=
  ⟨rfl, fun _ => Or.inl rfl⟩

theorem mono (h : disk.Furnished later places) (hp : ∀ place, places place → places' place) :
    disk.Furnished later places' :=
  ⟨h.here, fun place => (h.entry place).imp_right fun ⟨hm, he⟩ => ⟨hp place hm, he⟩⟩

theorem trans (h : disk.Furnished later places) (h' : later.Furnished last places) :
    disk.Furnished last places := by
  refine ⟨h'.here.trans h.here, fun place => ?_⟩
  rcases h'.entry place with hsame | ⟨hm, hnone, hdir⟩
  · rw [hsame]
    exact h.entry place
  · rcases h.entry place with hsame | ⟨-, -, hmade⟩
    · exact Or.inr ⟨hm, hsame ▸ hnone, hdir⟩
    · rw [hmade] at hnone
      cases hnone

theorem develops (h : disk.Furnished later places) : disk.Develops later := by
  refine ⟨h.here, fun place => ?_⟩
  rcases h.entry place with hsame | ⟨-, hnone, hdir⟩
  · rw [hsame]
    exact .keep _
  · rw [hnone, hdir]
    exact .directory

/-- Where directories are made, the files stay as they are. -/
theorem file?_eq (h : disk.Furnished later places) (place : Place) :
    later.file? place = disk.file? place := by
  rcases h.entry place with hsame | ⟨-, hnone, hdir⟩
  · exact file?_congr hsame
  · rw [file?, file?, hnone, hdir]

theorem touched (h : disk.Furnished later places) : disk.Touched later places' :=
  ⟨h.develops, fun place _ => h.file?_eq place⟩

end Furnished

/-- All that making a directory can have done when it succeeded. -/
theorem makeDirectory_cases (h : disk.makeDirectory path = .ok later) :
    ∃ parent name, disk.find false (withoutSlashes path) = .ok (.absent parent name) ∧
      later = disk.set (parent ++ [name]) .directory := by
  unfold makeDirectory at h
  cases hf : disk.find false (withoutSlashes path) with
  | error cause =>
    rw [hf] at h
    cases h
  | ok found =>
    rw [hf] at h
    obtain ⟨parent, name, rfl, rfl⟩ := add_eq_ok_iff.1 h
    exact ⟨parent, name, rfl, rfl⟩

/-- **Making a directory** makes it where its path leads to. -/
theorem makeDirectory_spec (h : disk.makeDirectory path = .ok later) :
    disk.Furnished later (disk.destination path = some ·) := by
  obtain ⟨parent, name, hf, rfl⟩ := makeDirectory_cases h
  have hnone := (find_eq_ok_iff.1 hf).2.entry?_absent
  have hdest := destination_of_find hf (by simp)
  rw [destination_withoutSlashes] at hdest
  refine ⟨rfl, fun place => ?_⟩
  rw [entry?_set (by simp)]
  split
  · next hp =>
    subst hp
    exact Or.inr ⟨hdest, hnone, rfl⟩
  · exact Or.inl rfl

theorem makeDirectoriesFrom_empty (depth : Nat) (disk : Disk) :
    (makeDirectoriesFrom depth ⟨""⟩ disk).2 = disk := by
  cases depth <;> rfl

/-- The places of the directories that lead to a path, and that of the path. -/
def OnTheWay (disk : Disk) (path : Path) (place : Place) : Prop :=
  ∃ other, path.Through other ∧ disk.destination other = some place

theorem makeDirectoriesFrom_spec (depth : Nat) (path : Path) (disk : Disk) :
    disk.Furnished (makeDirectoriesFrom depth path disk).2 (disk.OnTheWay path) := by
  induction depth generalizing path disk with
  | zero => exact .refl _ _
  | succ depth ih =>
    have above : disk.Furnished (makeDirectoriesFrom depth (path.parent?.getD ⟨""⟩) disk).2
        (disk.OnTheWay path) := by
      cases hp : path.parent? with
      | none =>
        rw [Option.getD_none, makeDirectoriesFrom_empty]
        exact .refl _ _
      | some parent =>
        exact (ih parent disk).mono fun place ⟨other, ho, hd⟩ => ⟨other, .up hp ho, hd⟩
    have hself {before after : Disk} (h : before.makeDirectory path = .ok after) :
        before.Furnished after (before.OnTheWay path) :=
      (makeDirectory_spec h).mono fun place hp => ⟨path, .self path, hp⟩
    unfold makeDirectoriesFrom
    split
    · exact .refl _ _
    · split
      · next later h => exact hself h
      · split
        · next h =>
          rw [h] at above
          exact above
        · next later h =>
          rw [h] at above
          cases hmade : later.makeDirectory path with
          | error cause => exact above
          | ok last =>
            exact above.trans ((hself hmade).mono fun place ⟨other, ho, hd⟩ =>
              ⟨other, ho, (above.develops.destination_eq other).symm.trans hd⟩)
      · exact .refl _ _

/-- **Directories are made where nothing was**, on the way to the path. -/
theorem makeDirectories_spec (path : Path) (disk : Disk) :
    disk.Furnished (disk.makeDirectories path).2 (disk.OnTheWay path) :=
  makeDirectoriesFrom_spec _ path disk

end Disk

end StyleTokens

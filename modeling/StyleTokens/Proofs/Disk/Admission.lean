/-
Files that may be missing, and the directories on their way.

A file can be written once the directories on its way are made.  This can be done where
nothing is, but not where a file is, nor where a link leads to nothing.

* `makeDirectories_of_passes` — the directories that are missing on a way can be made;
* `Disk.Crosses`, `Disk.Bypasses` — the places on the way of a path;
* `Disk.Admits`, `Admits.write` — a path to which a file can be written;
* `Admits.grown` — it stays one while other files are written, and none on its way;
* `Clear.admits` — without links, it is one when directories and files are where they should.
-/
import StyleTokens.Proofs.Disk.Reach

namespace StyleTokens

/-- What is found is a file, or nothing. -/
def Found.TakesFile : Found → Prop
  | .at _ (.file _) | .absent _ _ => True
  | _ => False

namespace Disk

open Path (IsIdle)

variable {disk later : Disk} {fording followLast : Bool} {links left middle : Nat}
  {place other : Place} {last : String} {pieces front before : List String}
  {found : Found} {path : Path} {data : ByteArray} {places news : Place → Prop}

/-! ### Making the directories -/

/-- The directory at the end of a way is found. -/
theorem isDirectory_of_passes (ha : Accepts path) (hs : disk.Solid disk.here)
    (h : disk.Passes false linkLimit (path.origin disk.here) path.moves left other) :
    disk.isDirectory path = true :=
  isDirectory_iff.2 ⟨other, find_eq_ok_iff.2
    ⟨ha, (Passes.filter_iff.1 h).walk_directory (hs.origin path)⟩⟩

/-- A directory that is missing at the end of a way that is there can be made. -/
theorem makeDirectory_of_passes (ha : Accepts path) (hs : disk.Solid disk.here)
    (hstretches : path.stretches = before ++ [last]) (hi : ¬ IsIdle last) {between : Place}
    (hbefore : disk.Passes false linkLimit (path.origin disk.here) before middle between)
    (hlast : disk.Passes true middle between [last] left other) :
    (∃ later, disk.makeDirectory path = .ok later ∧
      later.Passes false linkLimit (path.origin later.here) path.stretches left other) ∨
    disk.makeDirectory path = .error .alreadyExists ∧
      disk.Passes false linkLimit (path.origin disk.here) path.stretches left other := by
  rw [makeDirectory, withoutSlashes_of_ends hstretches hi, hstretches]
  have hfind {found : Found} (hw : disk.Walk false middle between [last] found) :
      disk.find false path = .ok found := by
    refine find_eq_ok_iff.2 ⟨ha, ?_⟩
    rw [hstretches]
    exact hbefore.walk hw (by simp)
  rcases hlast.single_cases hi with hthere | ⟨hn, hnone, rfl, rfl⟩
  · -- a link is not followed by the one who makes a directory
    have htaken : ∃ place entry, disk.Walk false middle between [last] (.at place entry) := by
      rcases (hthere.walk_directory (hbefore.solid (hs.origin path))).stop_last with
        hw | ⟨place, target, hw⟩
      · exact ⟨_, _, hw⟩
      · exact ⟨_, _, hw⟩
    obtain ⟨place, entry, hw⟩ := htaken
    rw [hfind hw]
    exact Or.inr ⟨rfl, hbefore.append hthere⟩
  · rw [hfind (.missing hn hnone)]
    refine Or.inl ⟨_, rfl, ?_⟩
    have hdev : disk.Develops (disk.set (between ++ [last]) .directory) :=
      develops_set (by simp) (by rw [hnone]; exact .directory)
    exact (hbefore.develops hdev).append
      (.enter hn (by rw [entry?_set (by simp), if_pos rfl]) .here)

/-- A way that fords is there, or nothing is found at its end. -/
theorem passes_or_notFound (followLast : Bool) (ha : Accepts path)
    (hstretches : path.stretches = before ++ [last])
    (h : disk.Passes true linkLimit (path.origin disk.here) before left other) :
    disk.Passes false linkLimit (path.origin disk.here) before left other ∨
      disk.find followLast path = .error .notFound := by
  obtain ⟨bound, hb, hsteps⟩ := steps_suffice disk path.stretches
  rw [hstretches] at hsteps
  rcases h.notFound_or followLast hb (List.cons_ne_nil last []) hsteps with
    hthere | hnone
  · exact Or.inl hthere
  · refine Or.inr ?_
    unfold find
    rw [piecesOf_eq_ok_iff.2 ⟨ha, rfl⟩, hstretches]
    exact hnone

/-- So is one that was made meanwhile. -/
theorem settle_of_passes (ha : Accepts path) (hs : disk.Solid disk.here)
    (hstretches : path.stretches = before ++ [last]) (hi : ¬ IsIdle last) {between : Place}
    (hbefore : disk.Passes false linkLimit (path.origin disk.here) before middle between)
    (hlast : disk.Passes true middle between [last] left other) :
    let settled := makeDirectoriesFrom.settle path disk (disk.makeDirectory path)
    settled.1 = .ok () ∧ settled.2.here = disk.here ∧
      settled.2.Passes false linkLimit (path.origin settled.2.here) path.moves left other := by
  rcases makeDirectory_of_passes ha hs hstretches hi hbefore hlast with
    ⟨later, hmake, hthere⟩ | ⟨hmake, hthere⟩
  · rw [hmake]
    exact ⟨rfl, (makeDirectory_spec hmake).here, Passes.filter_iff.2 hthere⟩
  · have hmoves := Passes.filter_iff.2 hthere
    rw [hmake]
    dsimp only [makeDirectoriesFrom.settle]
    rw [if_pos (isDirectory_of_passes ha hs hmoves)]
    exact ⟨rfl, rfl, hmoves⟩

/-- **The directories that are missing on a way can be made.** -/
theorem makeDirectoriesFrom_of_passes (depth : Nat) (htidy : path.Tidy)
    (hdepth : path.moves.length < depth) (ha : path.text = "" ∨ Accepts path)
    (hs : disk.Solid disk.here)
    (h : disk.Passes true linkLimit (path.origin disk.here) path.moves left other) :
    (makeDirectoriesFrom depth path disk).1 = .ok () ∧
      (makeDirectoriesFrom depth path disk).2.Passes false linkLimit (path.origin disk.here)
        path.moves left other := by
  -- from the path upwards, as far as directories are missing
  induction depth generalizing path left other with
  | zero => omega
  | succ depth ih =>
    have hmade := makeDirectoriesFrom_spec (depth + 1) path disk
    by_cases hthere : disk.Passes false linkLimit (path.origin disk.here) path.moves left other
    · refine ⟨?_, hthere.develops hmade.develops⟩
      rcases ha with htext | ha
      · obtain rfl : path = ⟨""⟩ := congrArg Path.mk htext
        rfl
      · exact makeDirectoriesFrom_of_isDirectory hs (isDirectory_of_passes ha hs hthere) depth
    rcases htidy with hnone | ⟨before, last, hstretches, hi⟩
    · rw [hnone] at h hthere
      cases h
      exact absurd .here hthere
    obtain ⟨parent, hparent⟩ := Path.exists_parent hstretches hi
    obtain ⟨habs, hmoves, hsub⟩ := Path.parent_spec hstretches hi hparent
    have ha : Accepts path := by
      refine ha.resolve_left fun htext => ?_
      rw [Path.moves_of_text (congrArg String.toList htext)] at hmoves
      simp [Path.pieces, IsIdle] at hmoves
    have hparts : path.parts ≠ [] := by
      intro he
      rw [Path.parent?, he] at hparent
      cases hparent
    -- before the last move the way is that of the parent, with idle pieces in between
    have hfront := Path.filter_before hstretches hi hmoves
    have hall := Passes.filter_iff.1 h
    rw [hstretches] at hall
    obtain ⟨middle, between, hbefore, hlast⟩ := hall.split
    rcases passes_or_notFound false ha hstretches hbefore with hbefore | hnone
    · rcases makeDirectory_of_passes ha hs hstretches hi hbefore hlast with
        ⟨later, hmake, hlater⟩ | ⟨-, hlater⟩
      · rw [makeDirectoriesFrom, if_neg hparts, hmake]
        rw [(makeDirectory_spec hmake).here] at hlater
        exact ⟨rfl, Passes.filter_iff.2 hlater⟩
      · exact absurd (Passes.filter_iff.2 hlater) hthere
    · have hmake : disk.makeDirectory path = .error .notFound := by
        rw [makeDirectory, withoutSlashes_of_ends hstretches hi, hnone]
        rfl
      rw [← Passes.filter_iff, hfront, ← origin_congr habs] at hbefore
      obtain ⟨hok, hpassed⟩ := ih (Path.tidy_parent hparent)
        (by rw [hmoves, List.length_append, List.length_singleton] at hdepth; omega)
        (or_iff_not_imp_left.2 fun htext => ha.of_sublist htext hsub) hbefore
      have hfurnished := makeDirectoriesFrom_spec depth parent disk
      rw [makeDirectoriesFrom, if_neg hparts, hmake, hparent]
      dsimp only [Option.getD_some]
      generalize makeDirectoriesFrom depth parent disk = above at hok hpassed hfurnished
      obtain ⟨result, made⟩ := above
      dsimp only at hok hpassed hfurnished
      subst hok
      rw [origin_congr habs, ← hfront, Passes.filter_iff, ← hfurnished.here] at hpassed
      have hgrown : disk.Grown made (fun _ => False) (disk.OnTheWay parent) := hfurnished.grown
      have hlast := hlast.grown hgrown fun _ _ _ _ _ h => h
      obtain ⟨hok, hhere, hsettled⟩ := settle_of_passes ha (hfurnished.develops.solid_here hs)
        hstretches hi hpassed hlast
      rw [hhere, hfurnished.here] at hsettled
      exact ⟨hok, hsettled⟩

theorem makeDirectories_of_passes (htidy : path.Tidy) (ha : path.text = "" ∨ Accepts path)
    (hs : disk.Solid disk.here)
    (h : disk.Passes true linkLimit (path.origin disk.here) path.moves left other) :
    (disk.makeDirectories path).1 = .ok () ∧
      (disk.makeDirectories path).2.Passes false linkLimit (path.origin disk.here)
        path.moves left other := by
  refine makeDirectoriesFrom_of_passes (path.parts.length + 1) htidy ?_ ha hs h
  rw [Path.moves_eq_texts, Nat.lt_succ_iff]
  simpa using List.length_filter_le (fun piece => ¬ IsIdle piece) (path.parts.map Part.text)

/-! ### Places on the way -/

/-- A place that the first moves of a path lead to, while there are more. -/
def Crosses (disk : Disk) (path : Path) (place : Place) : Prop :=
  ∃ n < path.moves.length,
    disk.destinationFrom linkLimit (path.origin disk.here) (path.moves.take n) = some place

instance (disk : Disk) (path : Path) (place : Place) : Decidable (disk.Crosses path place) := by
  unfold Crosses
  infer_instance

/-- A path that leads to no place that another one crosses. -/
def Bypasses (disk : Disk) (path other : Path) : Prop :=
  ∀ place, disk.destination path = some place → ¬ disk.Crosses other place

instance (disk : Disk) (path other : Path) : Decidable (disk.Bypasses path other) :=
  inferInstanceAs (Decidable (∀ place ∈ disk.destination path, ¬ disk.Crosses other place))

theorem Develops.crosses_iff (h : disk.Develops later) {place : Place} :
    later.Crosses path place ↔ disk.Crosses path place := by
  simp only [Crosses, h.here, destinationFrom_congr h.link?_eq]

theorem Bypasses.develops {other : Path} (h : disk.Bypasses path other) (hd : disk.Develops later) :
    later.Bypasses path other := fun place hp hcross =>
  h place (hd.destination_eq path ▸ hp) (hd.crosses_iff.1 hcross)

theorem crosses_iff_of_moves {other : Path} {place : Place} (hm : other.moves = path.moves)
    (habs : other.isAbsolute = path.isAbsolute) :
    disk.Crosses other place ↔ disk.Crosses path place := by
  rw [Crosses, Crosses, hm, origin_congr habs]

theorem crosses_of_moves {moves : List String} (h : moves <+: path.moves)
    (hlt : moves.length < path.moves.length) {place : Place}
    (hd : disk.destinationFrom linkLimit (path.origin disk.here) moves = some place) :
    disk.Crosses path place :=
  ⟨moves.length, hlt, by rwa [← List.prefix_iff_eq_take.1 h]⟩

/-- The paths that a path goes through lead along its first moves. -/
theorem moves_of_through {other : Path} (h : path.Through other) (ht : path.Tidy) :
    other.isAbsolute = path.isAbsolute ∧ other.moves <+: path.moves := by
  induction h with
  | self path => exact ⟨rfl, List.prefix_rfl⟩
  | @up path parent other hparent _ ih =>
    obtain ⟨habs, hfront⟩ := ih (Path.tidy_parent hparent)
    rcases ht with hnone | ⟨before, last, hstretches, hi⟩
    · obtain ⟨rfl, hrel⟩ := Path.parent_of_no_moves hnone hparent
      exact ⟨habs.trans hrel.symm, hfront.trans List.nil_prefix⟩
    · obtain ⟨habs', hmoves, -⟩ := Path.parent_spec hstretches hi hparent
      exact ⟨habs.trans habs', hfront.trans (hmoves ▸ List.prefix_append _ _)⟩

/-- **Directories are made where the path crosses.** -/
theorem crosses_of_onTheWay {parent : Path} (hstretches : path.stretches = before ++ [last])
    (hi : ¬ IsIdle last) (hparent : path.parent? = some parent) {place : Place}
    (h : disk.OnTheWay parent place) : disk.Crosses path place := by
  obtain ⟨other, hthrough, hd⟩ := h
  obtain ⟨habs, hfront⟩ := moves_of_through hthrough (Path.tidy_parent hparent)
  obtain ⟨habs', hmoves, -⟩ := Path.parent_spec hstretches hi hparent
  rw [destination_eq_moves, origin_congr (habs.trans habs')] at hd
  refine crosses_of_moves (hfront.trans (hmoves ▸ List.prefix_append _ _)) ?_ hd
  rw [hmoves, List.length_append]
  exact Nat.lt_succ_of_le hfront.length_le

theorem onTheWay_cases (hends : EndsWithName path.stretches) {place : Place}
    (h : disk.OnTheWay path place) :
    disk.destination path = some place ∨ disk.Crosses path place := by
  obtain ⟨before, name, hstretches, hn⟩ := hends
  obtain ⟨other, hthrough, hd⟩ := h
  cases hthrough with
  | self => exact Or.inl hd
  | up hparent hnext =>
    exact Or.inr (crosses_of_onTheWay hstretches hn.not_idle hparent ⟨other, hnext, hd⟩)

/-! ### Paths of files that may be missing -/

/-- A path to which a file can be written once the directories on its way are there. -/
inductive Admits (disk : Disk) (path : Path) : Prop
  | intro {front : List String} {name : String} {left : Nat} {other : Place} {found : Found}
    (moves : path.moves = front ++ [name])
    (way : disk.Passes true linkLimit (path.origin disk.here) front left other)
    (last : disk.Walk true left other [name] found) (takes : found.TakesFile)

theorem takesFile_entry? (ht : found.TakesFile)
    (h : disk.Walk followLast links place pieces found) :
    disk.entry? found.place = none ∨ ∃ old, disk.entry? found.place = some (.file old) := by
  cases found with
  | absent parent name => exact Or.inl h.entry?_absent
  | «at» other entry =>
    cases entry with
    | file old => exact Or.inr ⟨old, h.entry?_at⟩
    | directory | device _ | link _ => exact ht.elim

theorem takesFile_ne_link (ht : found.TakesFile) (other : Place) (target : String) :
    found ≠ .at other (.link target) := by
  rintro rfl
  exact ht

/-- What is missing at the end of a walk is found missing while nothing comes there. -/
theorem Develops.walk_absent {parent : Place} {name : String} (hd : disk.Develops later)
    (h : disk.Walk followLast links place pieces (.absent parent name))
    (hnone : later.entry? (parent ++ [name]) = none) :
    later.Walk followLast links place pieces (.absent parent name) := by
  generalize hf : Found.absent parent name = found at h ⊢
  induction h with
  | arrive _ => cases hf
  | idle hi _ ih => exact .idle hi (ih hf)
  | up _ ih => exact .up (ih hf)
  | missing hn _ =>
    cases hf
    exact .missing hn hnone
  | enter hn he _ ih => exact .enter hn (hd.directory he) (ih hf)
  | leaf _ _ _ _ => cases hf
  | lastLink _ _ _ => cases hf
  | turn hn he hgoes _ ih => exact .turn hn (hd.link he) hgoes (ih hf)

/-- A file can be written to where it could, while nothing comes there. -/
theorem Walk.grown (h : disk.Walk followLast links place pieces found) (ht : found.TakesFile)
    (hg : disk.Grown later places news) (hp : ¬ places found.place) (hn : ¬ news found.place) :
    later.Walk followLast links place pieces found := by
  cases found with
  | absent parent name => exact hg.walk_absent h (hg.comes _ h.entry?_absent hn)
  | «at» other entry =>
    cases entry with
    | file old => exact hg.walk h (hg.entry?_eq h.entry?_at hp) (by simp)
    | directory | device _ | link _ => exact ht.elim

/-- Where a way leads that ends so. -/
theorem Passes.destination_eq {name : String} (hmoves : path.moves = front ++ [name])
    (hway : disk.Passes fording linkLimit (path.origin disk.here) front left other)
    (hlast : disk.Walk true left other [name] found) (ht : found.TakesFile) :
    disk.destination path = some found.place := by
  rw [destination_eq_moves, hmoves, hway.destinationFrom_append,
    hlast.destinationFrom_eq (takesFile_ne_link ht)]

namespace Admits

/-- There is a file, or nothing. -/
theorem exists_place (h : disk.Admits path) : ∃ place, disk.destination path = some place ∧
    (disk.entry? place = none ∨ ∃ old, disk.entry? place = some (.file old)) := by
  obtain ⟨hmoves, hway, hlast, htakes⟩ := h
  exact ⟨_, hway.destination_eq hmoves hlast htakes, takesFile_entry? htakes hlast⟩

theorem keeps (h : disk.Admits path) : disk.Keeps path := by
  obtain ⟨place, hd, hentry⟩ := h.exists_place
  refine keeps_of_destination hd fun device => ?_
  rcases hentry with hnone | ⟨old, hfile⟩
  · simp [hnone]
  · simp [hfile]

/-- Whether a path is one is told by its moves. -/
theorem of_moves {other : Path} (h : disk.Admits path) (hm : other.moves = path.moves)
    (habs : other.isAbsolute = path.isAbsolute) : disk.Admits other := by
  obtain ⟨hmoves, hway, hlast, htakes⟩ := h
  rw [← origin_congr habs] at hway
  exact ⟨hm.trans hmoves, hway, hlast, htakes⟩

/-- The path of a file that is there is one. -/
theorem of_isFile (hs : disk.Solid disk.here) (h : disk.isFile path = true) :
    disk.Admits path := by
  obtain ⟨place, old, hf⟩ := isFile_iff.1 h
  obtain ⟨-, hw⟩ := find_eq_ok_iff.1 hf
  have hends := hw.endsWithName (hs.origin path) (by simp)
  obtain ⟨before, name, hstretches, hn⟩ := id hends
  have hmoves := Path.moves_of_stretches hstretches hn.not_idle
  have hwalk : disk.Walk true linkLimit (path.origin disk.here) path.moves
      (.at place (.file old)) := hw.filter hends
  rw [hmoves] at hwalk
  obtain ⟨left, other, hway, hlast⟩ := Passes.of_walk (hs.origin path) (by simp) hwalk
  exact ⟨hmoves, hway.may_ford, hlast, trivial⟩

/-- **It stays so** while files are written elsewhere, and none on the way. -/
theorem grown (h : disk.Admits path) (hg : disk.Grown later places news)
    (hspared : ∀ place, places place → ¬ disk.Crosses path place)
    (hfree : ∀ place, disk.destination path = some place → ¬ places place ∧ ¬ news place) :
    later.Admits path := by
  obtain ⟨hmoves, hway, hlast, htakes⟩ := h
  obtain ⟨hp, hn⟩ := hfree _ (hway.destination_eq hmoves hlast htakes)
  refine ⟨hmoves, ?_, hlast.grown htakes hg hp hn, htakes⟩
  rw [hg.here]
  refine hway.grown hg fun first more heq target htarget hplace => hspared _ hplace ?_
  refine crosses_of_moves ?_ ?_ htarget
  · rw [hmoves, heq, List.append_assoc]
    exact List.prefix_append _ _
  · rw [hmoves, heq]
    simp

end Admits

/-! ### Disks without links -/

theorem any_isDirectory_iff {found : Option Entry} :
    found.any Entry.isDirectory ↔ found = some .directory := by
  rcases found with _ | (_ | _ | _ | _) <;> simp [Entry.isDirectory]

/-- A path of short names, with nothing but directories where it crosses and nothing but a
file where it leads to. -/
structure Clear (disk : Disk) (path : Path) : Prop where
  ends : EndsWithName path.stretches
  names : ∀ piece ∈ path.moves, IsName piece ∨ piece = ".."
  way : ∀ place, disk.Crosses path place →
    disk.entry? place = none ∨ disk.entry? place = some .directory
  last : ∀ place, disk.destination path = some place →
    disk.entry? place = none ∨ (disk.file? place).isSome

instance (disk : Disk) (path : Path) : Decidable (disk.Clear path) :=
  decidable_of_iff (EndsWithName path.stretches ∧
      (∀ piece ∈ path.moves, IsName piece ∨ piece = "..") ∧
      (∀ n < path.moves.length,
        ∀ place ∈ disk.destinationFrom linkLimit (path.origin disk.here) (path.moves.take n),
          disk.entry? place = none ∨ (disk.entry? place).any Entry.isDirectory) ∧
      ∀ place ∈ disk.destination path, disk.entry? place = none ∨ (disk.file? place).isSome)
    ⟨fun ⟨hends, hnames, hway, hlast⟩ => ⟨hends, hnames, fun place ⟨n, hn, hd⟩ =>
      (hway n hn place hd).imp_right any_isDirectory_iff.1, hlast⟩,
    fun h => ⟨h.ends, h.names, fun n hn place hd =>
      (h.way place ⟨n, hn, hd⟩).imp_right any_isDirectory_iff.2, h.last⟩⟩

/-- Without links, a way is told by what is at its places. -/
theorem passes_of_no_links (hlinks : ∀ place, disk.link? place = none)
    (hnames : ∀ piece ∈ pieces, IsName piece ∨ piece = "..")
    (hway : ∀ n ≤ pieces.length, ∀ target,
      disk.destinationFrom links place (pieces.take n) = some target →
        disk.entry? target = none ∨ disk.entry? target = some .directory) :
    ∃ other, disk.Passes true links place pieces links other := by
  induction pieces generalizing place with
  | nil => exact ⟨place, .here⟩
  | cons piece rest ih =>
    have hrest := fun other ho => hnames other (List.mem_cons_of_mem piece ho)
    have hshort (n : Nat) (hn : n ≤ rest.length) : n + 1 ≤ (piece :: rest).length := by
      simpa using hn
    rcases hnames piece List.mem_cons_self with hn | rfl
    · have hstep (rest : List String) : disk.destinationFrom links place (piece :: rest) =
          disk.destinationFrom links (place ++ [piece]) rest :=
        destinationFrom_name hn.not_idle hn.ne_up (hlinks _)
      obtain ⟨other, hnext⟩ := ih hrest fun n hle target hd =>
        hway (n + 1) (hshort n hle) target ((hstep _).trans hd)
      rcases hway 1 (by simp) (place ++ [piece]) ((hstep []).trans destinationFrom_nil) with
        hnone | hdir
      · exact ⟨other, .ford hn hnone hnext⟩
      · exact ⟨other, .enter hn hdir hnext⟩
    · obtain ⟨other, hnext⟩ := ih hrest fun n hle target hd =>
        hway (n + 1) (hshort n hle) target (destinationFrom_up.trans hd)
      exact ⟨other, .up hnext⟩

/-- **Without links, a file can be written where no directory is, when nothing but
directories is on its way.** -/
theorem Clear.admits (h : disk.Clear path) (hlinks : ∀ place, disk.link? place = none) :
    disk.Admits path := by
  obtain ⟨before, name, hstretches, hn⟩ := h.ends
  have hmoves := Path.moves_of_stretches hstretches hn.not_idle
  generalize before.filter (fun piece => ¬ IsIdle piece) = front at hmoves
  have hnames : ∀ piece ∈ front, IsName piece ∨ piece = ".." := fun piece hp =>
    h.names piece (hmoves ▸ List.mem_append_left _ hp)
  have hfront : ∀ n ≤ front.length, ∀ target,
      disk.destinationFrom linkLimit (path.origin disk.here) (front.take n) = some target →
        disk.entry? target = none ∨ disk.entry? target = some .directory := by
    intro n hle target hd
    refine h.way target (crosses_of_moves ?_ ?_ hd)
    · exact hmoves ▸ (List.take_prefix _ _).trans (List.prefix_append _ _)
    · rw [hmoves, List.length_take, List.length_append, List.length_singleton]
      omega
  obtain ⟨other, hway⟩ := passes_of_no_links hlinks hnames hfront
  have hd : disk.destination path = some (other ++ [name]) := by
    rw [destination_eq_moves, hmoves, hway.destinationFrom_append,
      destinationFrom_name hn.not_idle hn.ne_up (hlinks _), destinationFrom_nil]
  rcases h.last _ hd with hnone | hfile
  · exact ⟨hmoves, hway, .missing hn hnone, trivial⟩
  · obtain ⟨old, hold⟩ := Option.isSome_iff_exists.1 hfile
    exact ⟨hmoves, hway, .leaf hn (file?_eq_some_iff.1 hold) (by simp) (by simp), trivial⟩

/-- Files that are there are not on the way of each other. -/
theorem bypasses_of_isFile {other : Path} (hs : disk.Solid disk.here)
    (h : disk.isFile path = true) (ho : disk.isFile other = true) : disk.Bypasses path other := by
  obtain ⟨place, old, hf⟩ := isFile_iff.1 h
  obtain ⟨_, _, hg⟩ := isFile_iff.1 ho
  have hw := (find_eq_ok_iff.1 hg).2
  have hwalk := hw.filter (hw.endsWithName (hs.origin other) (by simp))
  rintro target hd ⟨n, hn, hcross⟩
  obtain rfl : place = target := Option.some.inj ((destination_of_find hf (by simp)).symm.trans hd)
  -- what is crossed is a directory
  change disk.Walk true linkLimit (other.origin disk.here) other.moves _ at hwalk
  rw [← List.take_append_drop n other.moves] at hwalk
  obtain ⟨left, between, hway, -⟩ := Passes.of_walk (hs.origin other)
    (by simpa [List.drop_eq_nil_iff] using hn) hwalk
  have hend := hway.destinationFrom_append []
  rw [List.append_nil, hcross, destinationFrom_nil] at hend
  obtain rfl := Option.some.inj hend
  have hdir := (hway.solid (hs.origin other)).here
  rw [(find_eq_ok_iff.1 hf).2.entry?_at] at hdir
  cases hdir

/-- A file can be written where a path leads to one, or to nothing. -/
theorem write_of_find (hstretches : path.stretches = before ++ [last]) (hi : ¬ IsIdle last)
    (hfind : disk.find true path = .ok found) (ht : found.TakesFile) (data : ByteArray) :
    ∃ later, disk.write path data = .ok later := by
  refine ⟨disk.set found.place (.file data), ?_⟩
  rw [write, target_eq_ok_iff.2 ⟨withoutSlashes_of_ends hstretches hi, hfind⟩]
  cases found with
  | absent parent name => rfl
  | «at» place entry =>
    cases entry with
    | file old => rfl
    | directory | device _ | link _ => exact ht.elim

/-- A file that is there can be written. -/
theorem write_of_isFile (hs : disk.Solid disk.here) (h : disk.isFile path = true)
    (data : ByteArray) : ∃ later, disk.write path data = .ok later := by
  obtain ⟨place, old, hf⟩ := isFile_iff.1 h
  obtain ⟨before, last, hstretches, hn⟩ :=
    (find_eq_ok_iff.1 hf).2.endsWithName (hs.origin path) (by simp)
  exact write_of_find hstretches hn.not_idle hf trivial data

/-- **A file can be written at the end of a way that is there.** -/
theorem write_of_passes (ha : Accepts path) (hstretches : path.stretches = before ++ [last])
    (hi : ¬ IsIdle last)
    (hbefore : disk.Passes false linkLimit (path.origin disk.here) before left other)
    (hw : disk.Walk true left other [last] found) (ht : found.TakesFile) (data : ByteArray) :
    ∃ later, disk.write path data = .ok later := by
  have hfind : disk.find true path = .ok found := by
    refine find_eq_ok_iff.2 ⟨ha, ?_⟩
    rw [hstretches]
    exact hbefore.walk hw (by simp)
  exact write_of_find hstretches hi hfind ht data

/-- **The directories on the way to a file can be made, and then the file be written.** -/
theorem Admits.write {parent : Path} (h : disk.Admits path) (hs : disk.Solid disk.here)
    (ha : Accepts path) (hends : EndsWithName path.stretches)
    (hown : disk.Bypasses path path) (hparent : path.parent? = some parent) (data : ByteArray) :
    (disk.makeDirectories parent).1 = .ok () ∧
      ∃ later, (disk.makeDirectories parent).2.write path data = .ok later := by
  obtain ⟨hmoves, hway, hlast, htakes⟩ := h
  obtain ⟨before, last, hstretches, hn⟩ := hends
  obtain ⟨habs, hparentMoves, hsub⟩ := Path.parent_spec hstretches hn.not_idle hparent
  obtain ⟨rfl, hname⟩ := List.append_inj' (hmoves.symm.trans hparentMoves) rfl
  obtain rfl := List.singleton_inj.1 hname
  have hd := hway.destination_eq hmoves hlast htakes
  rw [← origin_congr habs] at hway
  obtain ⟨hok, hmade⟩ := makeDirectories_of_passes (Path.tidy_parent hparent)
    (or_iff_not_imp_left.2 fun htext => ha.of_sublist htext hsub) hs hway
  -- no directory is made where the file is to be
  have hfurnished := makeDirectories_spec parent disk
  have hgrown : disk.Grown (disk.makeDirectories parent).2 (fun _ => False)
      (disk.OnTheWay parent) := hfurnished.grown
  have hlast' := hlast.grown htakes hgrown id fun hnew =>
    hown _ hd (crosses_of_onTheWay hstretches hn.not_idle hparent hnew)
  rw [origin_congr habs, ← Path.filter_before hstretches hn.not_idle hmoves, Passes.filter_iff,
    ← hfurnished.here] at hmade
  exact ⟨hok, write_of_passes ha hstretches hn.not_idle hmade hlast' htakes data⟩

end Disk

end StyleTokens

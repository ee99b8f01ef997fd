/-
Where a file is, its path leads, and other spellings of it.

* `Walk.of_filter` — idle pieces may come in;
* `find_of_moves` — two paths that lead along the same moves find the same file;
* `find_under_plain`, `isFile_under_plain` — so do the paths below a root and below its
  plain form;
* `Walk.before` — on the way to something there are directories;
* `Walk.stop_last` — who does not follow a link at the end finds as much, or that link;
* `makeDirectoriesFrom_of_isDirectory` — a directory that is there need not be made.
-/
import StyleTokens.Proofs.Disk.Passage
import StyleTokens.Proofs.Path.Parent
import StyleTokens.Proofs.Text.Boundary

namespace StyleTokens.Disk

open StyleTokens.Path

variable {disk : Disk} {followLast : Bool} {links : Nat} {place : Place} {piece : String}
  {pieces rest : List String} {found : Found} {path : Path} {entry : Entry} {data : ByteArray}

namespace Walk

/-- An idle piece may come in, other than behind a file. -/
theorem insert (before : List String) (hi : IsIdle piece)
    (h : disk.Walk followLast links place (before ++ rest) found)
    (hend : rest ≠ [] ∨ ∃ other, found = .at other .directory) :
    disk.Walk followLast links place (before ++ piece :: rest) found := by
  -- where the piece comes next the walk idles there; before that it goes as it went
  generalize hp : before ++ rest = pieces at h
  induction h generalizing before with
  | arrive he =>
    obtain ⟨rfl, rfl⟩ := List.append_eq_nil_iff.1 hp
    exact .idle hi (.arrive he)
  | idle hother hnext ih =>
    cases before with
    | nil =>
      obtain rfl : rest = _ := hp
      exact .idle hi (.idle hother hnext)
    | cons first others =>
      obtain ⟨rfl, rfl⟩ := List.cons.inj hp
      exact .idle hother (ih _ hend rfl)
  | up hnext ih =>
    cases before with
    | nil =>
      obtain rfl : rest = _ := hp
      exact .idle hi (.up hnext)
    | cons first others =>
      obtain ⟨rfl, rfl⟩ := List.cons.inj hp
      exact .up (ih _ hend rfl)
  | missing hn he =>
    rcases List.append_eq_singleton_iff.1 hp with ⟨rfl, rfl⟩ | ⟨rfl, rfl⟩
    · exact .idle hi (.missing hn he)
    · obtain ⟨other, hother⟩ := hend.resolve_left fun h => h rfl
      cases hother
  | enter hn he hnext ih =>
    cases before with
    | nil =>
      obtain rfl : rest = _ := hp
      exact .idle hi (.enter hn he hnext)
    | cons first others =>
      obtain ⟨rfl, rfl⟩ := List.cons.inj hp
      exact .enter hn he (ih _ hend rfl)
  | leaf hn he hdir hlink =>
    rcases List.append_eq_singleton_iff.1 hp with ⟨rfl, rfl⟩ | ⟨rfl, rfl⟩
    · exact .idle hi (.leaf hn he hdir hlink)
    · obtain ⟨other, hother⟩ := hend.resolve_left fun h => h rfl
      cases hother
      exact absurd rfl hdir
  | lastLink hstays hn he =>
    rcases List.append_eq_singleton_iff.1 hp with ⟨rfl, rfl⟩ | ⟨rfl, rfl⟩
    · exact .idle hi (.lastLink hstays hn he)
    · obtain ⟨other, hother⟩ := hend.resolve_left fun h => h rfl
      cases hother
  | @turn _ _ _ target _ _ hn he hgoes hnext ih =>
    cases before with
    | nil =>
      obtain rfl : rest = _ := hp
      exact .idle hi (.turn hn he hgoes hnext)
    | cons first others =>
      obtain ⟨rfl, rfl⟩ := List.cons.inj hp
      have hmoved := ih (Path.stretches ⟨target⟩ ++ others) hend (List.append_assoc _ _ _)
      rw [List.append_assoc] at hmoved
      exact .turn hn he (fun h => by simp at h) hmoved

/-- **Idle pieces may come in**, other than behind a file. -/
theorem of_filter (before : List String)
    (h : disk.Walk followLast links place
      (before ++ pieces.filter fun piece => ¬ IsIdle piece) found)
    (hend : EndsWithName pieces ∨ ∃ other, found = .at other .directory) :
    disk.Walk followLast links place (before ++ pieces) found := by
  induction pieces generalizing before with
  | nil => exact h
  | cons piece rest ih =>
    rw [List.filter_cons] at h
    by_cases hi : IsIdle piece
    · rw [if_neg (by simpa using hi)] at h
      have hrest := hend.imp_left fun hlast => hlast.tail fun hn => hn.not_idle hi
      exact insert before hi (ih before h hrest) (hrest.imp_left EndsWithName.ne_nil)
    · rw [if_pos (by simpa using hi)] at h
      by_cases hr : rest = []
      · subst hr
        exact h
      · have hmoved := ih (before ++ [piece]) (by simpa using h)
          (hend.imp_left fun hlast => hlast.of_cons hr)
        simpa using hmoved

/-- **On the way to something there are directories.** -/
theorem before {front : List String} (hs : disk.Solid place)
    (h : disk.Walk true links place (front ++ rest) found) (hr : rest ≠ []) :
    ∃ other, disk.Walk true links place front (.at other .directory) := by
  obtain ⟨left, other, hway, -⟩ := Passes.of_walk hs hr h
  exact ⟨other, hway.walk_directory hs⟩

/-- Where the last link is not followed, the same is found, or that link. -/
theorem stop_last (h : disk.Walk true links place pieces found) :
    disk.Walk false links place pieces found ∨
      ∃ other target, disk.Walk false links place pieces (.at other (.link target)) := by
  have hstep {links links' : Nat} {place place' : Place} {pieces pieces' : List String}
      {found : Found}
      (h : disk.Walk false links place pieces found ∨
        ∃ other target, disk.Walk false links place pieces (.at other (.link target)))
      (hw : ∀ found, disk.Walk false links place pieces found →
        disk.Walk false links' place' pieces' found) :
      disk.Walk false links' place' pieces' found ∨
        ∃ other target, disk.Walk false links' place' pieces' (.at other (.link target)) :=
    h.imp (hw _) fun ⟨other, target, h⟩ => ⟨other, target, hw _ h⟩
  induction h with
  | arrive he => exact Or.inl (.arrive he)
  | idle hi _ ih => exact hstep ih fun _ => .idle hi
  | up _ ih => exact hstep ih fun _ => .up
  | missing hn he => exact Or.inl (.missing hn he)
  | enter hn he _ ih => exact hstep ih fun _ => .enter hn he
  | leaf hn he hdir hlink => exact Or.inl (.leaf hn he hdir hlink)
  | lastLink hstays _ _ => cases hstays
  | @turn _ _ _ _ rest _ hn he _ _ ih =>
    by_cases hr : rest = []
    · subst hr
      exact Or.inr ⟨_, _, .lastLink rfl hn he⟩
    · exact hstep ih fun _ => .turn hn he fun h => absurd h hr

theorem exists_of_last_followed (h : disk.Walk true links place pieces found) :
    ∃ other, disk.Walk false links place pieces other :=
  h.stop_last.elim (fun h => ⟨_, h⟩) fun ⟨_, _, h⟩ => ⟨_, h⟩

end Walk

/-! ### Paths with the same moves -/

theorem Accepts.of_sublist {other : Path} (h : Accepts path) (hne : other.text ≠ "")
    (hsub : other.text.toList.Sublist path.text.toList) : Accepts other where
  ne_empty := hne
  no_nul hn := h.no_nul (hsub.mem hn)
  short := by
    have hlength := Text.byteLength_le_of_sublist hsub
    have hshort := h.short
    rw [Text.utf8ByteSize_eq] at hshort ⊢
    exact Nat.le_trans hlength hshort

theorem ne_empty_of_moves (h : path.moves ≠ []) : path.text ≠ "" := by
  intro he
  rw [moves_of_text (congrArg String.toList he)] at h
  exact h rfl

theorem origin_congr {other : Path} (h : other.isAbsolute = path.isAbsolute) (place : Place) :
    other.origin place = path.origin place := by
  rw [origin, origin, h]

/-- **Two paths that lead along the same moves find the same file.** -/
theorem find_of_moves {other : Path} (hs : disk.Solid disk.here)
    (h : disk.find true path = .ok (.at place entry)) (hdir : entry ≠ .directory)
    (ha : Accepts other) (hlast : EndsWithName other.stretches) (hm : other.moves = path.moves)
    (habs : other.isAbsolute = path.isAbsolute) :
    disk.find true other = .ok (.at place entry) := by
  obtain ⟨-, hw⟩ := find_eq_ok_iff.1 h
  have hwalk := hw.filter (hw.endsWithName (hs.origin path) hdir)
  refine find_eq_ok_iff.2 ⟨ha, ?_⟩
  rw [origin_congr habs]
  exact Walk.of_filter [] (show disk.Walk true linkLimit _ other.moves _ from hm ▸ hwalk)
    (Or.inl hlast)

theorem EndsWithName.append {front : List String} (h : EndsWithName rest) :
    EndsWithName (front ++ rest) := by
  obtain ⟨before, name, rfl, hn⟩ := h
  exact ⟨front ++ before, name, (List.append_assoc _ _ _).symm, hn⟩

theorem stretches_ne_nil (path : Path) : path.stretches ≠ [] := by
  rw [stretches]
  simpa using pieces_ne_nil path.text.toList

/-- So they read the same. -/
theorem read_of_moves {other : Path} (hs : disk.Solid disk.here) (h : disk.read path = .ok data)
    (ha : Accepts other) (hlast : EndsWithName other.stretches) (hm : other.moves = path.moves)
    (habs : other.isAbsolute = path.isAbsolute) : disk.read other = .ok data := by
  obtain ⟨place, entry, hf, hentry⟩ := read_eq_ok_iff.1 h
  have hdir : entry ≠ .directory := by rcases hentry with rfl | ⟨-, device, rfl⟩ <;> simp
  exact read_eq_ok_iff.2 ⟨place, entry, find_of_moves hs hf hdir ha hlast hm habs, hentry⟩

/-- A path below the plain form of a root can be that of a file if the one below the root
can. -/
theorem accepts_under_plain {root file : Path} (ha : Accepts (root.under file))
    (hlast : EndsWithName (root.under file).stretches) (hroot : root.Lasts) :
    Accepts (under ⟨root.plain⟩ file) ∧ EndsWithName (under ⟨root.plain⟩ file).stretches := by
  cases hfile : file.isAbsolute with
  | true =>
    rw [under, if_pos hfile] at ha hlast ⊢
    exact ⟨ha, hlast⟩
  | false =>
    have hne : (under ⟨root.plain⟩ file).moves ≠ [] := by
      rw [(under_plain_spec hroot file).2]
      exact hlast.filter_ne_nil
    obtain ⟨front, hfront, -⟩ := stretches_under root hfile
    obtain ⟨short, hshort, -⟩ := stretches_under ⟨root.plain⟩ hfile
    refine ⟨ha.of_sublist (ne_empty_of_moves hne) (under_plain_sublist root file), ?_⟩
    rw [hshort]
    rw [hfront] at hlast
    exact (hlast.of_append _ (stretches_ne_nil file)).append

/-- **Below the plain form of a root is what is below the root.** -/
theorem find_under_plain {root file : Path} (hs : disk.Solid disk.here)
    (h : disk.find true (root.under file) = .ok (.at place entry)) (hdir : entry ≠ .directory)
    (hroot : root.Lasts) : disk.find true (under ⟨root.plain⟩ file) = .ok (.at place entry) := by
  obtain ⟨ha, hw⟩ := find_eq_ok_iff.1 h
  obtain ⟨haccepts, hlast⟩ := accepts_under_plain ha (hw.endsWithName (hs.origin _) hdir) hroot
  obtain ⟨habs, hmoves⟩ := under_plain_spec hroot file
  exact find_of_moves hs h hdir haccepts hlast hmoves habs

/-- Where bytes are read, the plain form of the path leads. -/
theorem destination_plain (hs : disk.Solid disk.here) (h : disk.read path = .ok data) :
    disk.destination ⟨path.plain⟩ = disk.destination path := by
  obtain ⟨place, entry, hf, hentry⟩ := read_eq_ok_iff.1 h
  have hdir : entry ≠ .directory := by rcases hentry with rfl | ⟨-, device, rfl⟩ <;> simp
  have hlink : ∀ other target, Found.at place entry ≠ .at other (.link target) := by
    rcases hentry with rfl | ⟨-, device, rfl⟩ <;> simp
  rw [destination_of_find hf hlink, destination_of_find (find_plain hs hf hdir) hlink]

/-- The file below a root is the one below its plain form. -/
theorem isFile_under_plain {root file : Path} (hs : disk.Solid disk.here)
    (h : disk.isFile (root.under file) = true) (hroot : root.Lasts) :
    disk.isFile (under ⟨root.plain⟩ file) = true ∧
      disk.destination (under ⟨root.plain⟩ file) = disk.destination (root.under file) := by
  obtain ⟨place, old, hf⟩ := isFile_iff.1 h
  have hplain := find_under_plain hs hf (by simp) hroot
  exact ⟨isFile_iff.2 ⟨place, old, hplain⟩,
    (destination_of_find hplain (by simp)).trans (destination_of_find hf (by simp)).symm⟩

/-! ### Directories -/

theorem isDirectory_iff : disk.isDirectory path = true ↔
    ∃ place, disk.find true path = .ok (.at place .directory) := by
  rw [isDirectory, entryAt]
  rcases disk.find true path with cause | found
  · simp [bind, Except.bind, Except.toOption]
  · cases found with
    | absent parent name => simp [bind, Except.bind, Except.toOption, throw, throwThe,
        MonadExceptOf.throw]
    | «at» place entry =>
      cases entry <;>
        simp [bind, Except.bind, Except.toOption, pure, Except.pure, Entry.isDirectory]

theorem stretches_append_slashes (text : List Char) (count : Nat) :
    stretches ⟨String.ofList (text ++ List.replicate count '/')⟩ =
      stretches ⟨String.ofList text⟩ ++ List.replicate count "" := by
  induction count with
  | zero => simp
  | succ count ih =>
    rw [List.replicate_succ', List.replicate_succ', ← List.append_assoc, ← List.append_assoc, ← ih]
    simp only [stretches, String.toList_ofList, pieces_concat_slash, List.map_append]
    rfl

/-- Slashes at the end of a path are its last pieces, and empty. -/
theorem stretches_withoutSlashes (path : Path) : ∃ count,
    path.stretches = (withoutSlashes path).stretches ++ List.replicate count "" ∧
      (count = 0 → withoutSlashes path = path) := by
  rcases withoutSlashes_cases path with h | ⟨front, count, -, h, hpath⟩
  · exact ⟨0, by simp [h], fun _ => h⟩
  · refine ⟨count, by rw [h, ← stretches_append_slashes, ← hpath], ?_⟩
    rintro rfl
    rw [h, hpath]
    simp

theorem withoutSlashes_sublist (path : Path) :
    (withoutSlashes path).text.toList.Sublist path.text.toList := by
  obtain ⟨count, hstretches, -⟩ := stretches_withoutSlashes path
  exact sublist_of_stretches (hstretches ▸ List.sublist_append_left _ _)

/-- Where a directory is, nothing has to be looked for above. -/
theorem find_withoutSlashes_of_isDirectory (hs : disk.Solid disk.here)
    (h : disk.isDirectory path = true) :
    ∃ found, disk.find false (withoutSlashes path) = .ok found := by
  obtain ⟨place, hf⟩ := isDirectory_iff.1 h
  obtain ⟨ha, hw⟩ := find_eq_ok_iff.1 hf
  have hne : (withoutSlashes path).text ≠ "" := by
    rcases withoutSlashes_cases path with h | ⟨front, -, hfront, h, -⟩
    · rw [h]
      exact ha.ne_empty
    · rw [h]
      simpa using hfront
  have hfollowed : ∃ other, disk.Walk true linkLimit (path.origin disk.here)
      (withoutSlashes path).stretches other := by
    obtain ⟨count, hstretches, hnone⟩ := stretches_withoutSlashes path
    by_cases hcount : count = 0
    · rw [hnone hcount]
      exact ⟨_, hw⟩
    · rw [hstretches] at hw
      obtain ⟨other, hother⟩ := Walk.before (hs.origin path) hw (by simpa using hcount)
      exact ⟨_, hother⟩
  obtain ⟨other, hother⟩ := hfollowed
  obtain ⟨found, hfound⟩ := hother.exists_of_last_followed
  refine ⟨found, find_eq_ok_iff.2 ⟨ha.of_sublist hne (withoutSlashes_sublist path), ?_⟩⟩
  rwa [origin_congr (isAbsolute_withoutSlashes path)]

/-- **A directory that is there need not be made.** -/
theorem makeDirectoriesFrom_of_isDirectory (hs : disk.Solid disk.here)
    (h : disk.isDirectory path = true) (depth : Nat) :
    (makeDirectoriesFrom (depth + 1) path disk).1 = .ok () := by
  obtain ⟨found, hfound⟩ := find_withoutSlashes_of_isDirectory hs h
  have hmake : disk.makeDirectory path = disk.add found .directory := by
    rw [makeDirectory, hfound]
    rfl
  rw [makeDirectoriesFrom, hmake]
  split
  · rfl
  · cases found with
    | absent parent name => rfl
    | «at» place entry =>
      show (makeDirectoriesFrom.settle path disk (.error .alreadyExists)).1 = _
      rw [makeDirectoriesFrom.settle, if_pos h]
      rfl

/-! ### Files -/

/-- A path that ends with a move has no slash at its end. -/
theorem withoutSlashes_of_ends {before : List String} {last : String}
    (h : path.stretches = before ++ [last]) (hi : ¬ IsIdle last) : withoutSlashes path = path := by
  obtain ⟨count, hstretches, hnone⟩ := stretches_withoutSlashes path
  refine hnone (Decidable.byContradiction fun hcount => ?_)
  have hmem : last ∈ List.replicate count "" := by
    refine List.mem_of_getLast? ?_
    rw [← List.getLast?_append_of_ne_nil (withoutSlashes path).stretches (by simpa using hcount),
      ← hstretches, h, List.getLast?_concat]
  exact hi (Or.inl (List.eq_of_mem_replicate hmem))

end StyleTokens.Disk

/-
The addresses that are kept for later.

A manifest names the root and the copies of a snapshot, and a listing names the files of a
project.  They are in plain form, and what reads them later goes where they were made for, the
bare root aside: its slash stands in front of the first name, and it has none.

* `Path.visible`, `Path.alike_iff_visible` — two paths are spellings of one way when they have the
  same parts, dots aside;
* `Path.Recalls`, `Path.parts_plain_iff`, `Path.recalls_plain_iff` — a path can be read again from
  its plain form unless it is the bare root;
* `Disk.lasts_of_write` — a file that is written is not at the bare root;
* `Vault.recalls_of_run_snapshot` — the copies of a manifest can be found again;
* `Catalog.alike_entryPath_iff` — an entry of a report leads where it was to lead, unless it is
  the bare root and the root of the project is not;
* `addresses_kept` — all of it, for any path, any snapshot and any listing.

Design notes: the bare root has the empty text for its plain form.  What lies below that is seen
from the working directory, so that a project at the bare root is put back in the wrong place:
`Sample.bareRoot_lost`.
-/
import StyleTokens.Proofs.Catalog.Entries
import StyleTokens.Proofs.Disk.Destination
import StyleTokens.Proofs.Path.Relative
import StyleTokens.Proofs.Vault.Locations
import StyleTokens.Proofs.Vault.Return

namespace StyleTokens

/-! ### Paths in plain form -/

namespace Path

variable {path other : Path} {text : String}

/-- The parts of a path without dots: the root, the names and the parts that go up, in order. -/
def visible (path : Path) : List Part :=
  path.parts.filter (· ≠ .here)

/-- A part that a move stands for is no dot, and its text is the move. -/
theorem visible_eq (path : Path) : path.visible =
    (if path.isAbsolute then [.root] else []) ++ path.moves.map Part.ofMove := by
  have hstays : (path.moves.map Part.ofMove).filter (· ≠ .here) = path.moves.map Part.ofMove := by
    refine List.filter_eq_self.2 fun part hp => ?_
    obtain ⟨move, -, rfl⟩ := List.mem_map.1 hp
    unfold Part.ofMove
    split <;> simp
  have hnamed : (pieces path.text.toList).filterMap part? = path.moves.map Part.ofMove :=
    named_eq_moves _
  rw [visible, parts, hnamed]
  split
  · rw [List.filter_cons_of_pos (by simp), hstays]
    rfl
  · split
    · rw [List.filter_cons_of_neg (by simp), hstays]
      rfl
    · exact hstays

/-- **Two paths are spellings of one way when they have the same parts**, dots aside. -/
theorem alike_iff_visible : Alike path other ↔ path.visible = other.visible := by
  constructor
  · rintro ⟨habs, hmoves⟩
    rw [visible_eq, visible_eq, habs, hmoves]
  · intro h
    have htexts := congrArg (List.map Part.text) h
    rw [visible, visible, texts_parts, texts_parts] at htexts
    -- a move is never empty, so that the text of the root cannot be taken for one
    have hfirst (path : Path) : "" ∉ path.moves := fun hm => by
      simpa [IsIdle] using (List.mem_filter.1 hm).2
    have hroot {path other : Path} (he : "" :: path.moves = other.moves) : False :=
      hfirst other (he ▸ List.mem_cons_self)
    cases hp : path.isAbsolute <;> cases ho : other.isAbsolute <;> rw [hp, ho] at htexts
    · exact ⟨hp.trans ho.symm, htexts⟩
    · exact (hroot htexts.symm).elim
    · exact (hroot htexts).elim
    · exact ⟨hp.trans ho.symm, List.append_cancel_left htexts⟩

theorem Alike.destination_eq (h : Alike path other) (disk : Disk) :
    disk.destination path = disk.destination other :=
  Disk.destination_eq_of_moves h.2 h.1

/-- Two spellings of one way are that below a root as well. -/
theorem Alike.under (h : Alike path other) (root : Path) :
    Alike (root.under path) (root.under other) := by
  cases habs : other.isAbsolute with
  | true => rwa [Path.under, Path.under, if_pos habs, if_pos (h.1.trans habs)]
  | false =>
    have hrel : path.isAbsolute = false := h.1.trans habs
    rw [Alike, isAbsolute_under _ habs, isAbsolute_under _ hrel, moves_under _ habs,
      moves_under _ hrel, h.2]
    exact ⟨rfl, rfl⟩

/-- The bare root is absolute and makes no moves. -/
theorem bare_iff : path.parts = [.root] ↔ path.isAbsolute = true ∧ path.moves = [] := by
  cases habs : path.isAbsolute with
  | true =>
    rw [parts_of_absolute habs]
    simp
  | false =>
    have hroot : Part.root ∉ path.visible := by
      rw [visible_eq, habs]
      simp only [Bool.false_eq_true, if_false, List.nil_append, List.mem_map, not_exists, not_and]
      intro move _
      unfold Part.ofMove
      split <;> simp
    refine iff_of_false (fun hparts => hroot ?_) (by simp)
    rw [visible, hparts]
    decide

/-- **All paths last but the bare root**, however it is spelled. -/
theorem lasts_iff : path.Lasts ↔ path.parts ≠ [.root] := by
  simp only [Lasts, ne_eq, bare_iff, not_and]

/-- The plain form of a path that lasts is a spelling of it. -/
theorem Lasts.alike_plain (h : path.Lasts) : Alike ⟨path.plain⟩ path :=
  ⟨h.isAbsolute_plain, moves_plain path⟩

/-- The plain form of the bare root is that of nothing. -/
theorem plain_of_bare (h : path.parts = [.root]) : path.plain = "" := by
  rw [plain, h]
  rfl

/-- A path with a dot among its parts begins with one. -/
theorem dot_mem_stretches (h : .here ∈ path.parts) : "." ∈ path.stretches := by
  have habs : path.isAbsolute = false :=
    Bool.eq_false_iff.2 fun habs => here_not_mem_parts habs h
  rw [parts, if_neg (by simp [habs])] at h
  split at h
  · next hhead =>
    exact List.mem_map.2 ⟨['.'], List.mem_of_mem_head? hhead, rfl⟩
  · rw [named_eq_moves] at h
    obtain ⟨move, -, hmove⟩ := List.mem_map.1 h
    unfold Part.ofMove at hmove
    split at hmove <;> cases hmove

/-- The plain form has no dots. -/
theorem parts_plain (path : Path) : parts ⟨path.plain⟩ = visible ⟨path.plain⟩ := by
  refine (List.filter_eq_self.2 fun part hp => ?_).symm
  simp only [ne_eq, decide_not, Bool.not_eq_true', decide_eq_false_iff_not]
  rintro rfl
  have hdot := dot_mem_stretches hp
  by_cases hmoves : path.isAbsolute = true ∨ path.moves ≠ []
  · rw [stretches_plain path hmoves] at hdot
    rcases List.mem_append.1 hdot with hdot | hdot
    · split at hdot <;> simp at hdot
    · simpa [IsIdle] using (List.mem_filter.1 hdot).2
  · obtain ⟨habs, hnone⟩ := not_or.1 hmoves
    have hplain : path.plain = "" := by
      rw [plain, texts_parts, if_neg habs, Decidable.not_not.1 hnone]
      rfl
    rw [hplain] at hdot
    exact absurd hdot (by decide)

/-- A text from which a path can be read again: it has the parts of the path without its dots, and
leads where the path leads. -/
structure Recalls (path : Path) (text : String) : Prop where
  parts_eq : parts ⟨text⟩ = path.parts.filter (· ≠ .here)
  destination_eq : ∀ disk : Disk, disk.destination ⟨text⟩ = disk.destination path

/-- A text in plain form that is a spelling of the path. -/
theorem recalls_of_alike (h : Alike ⟨other.plain⟩ path) : path.Recalls other.plain where
  parts_eq := (parts_plain other).trans (alike_iff_visible.1 h)
  destination_eq := h.destination_eq

/-- **The parts of a path can be read again from its plain form**, unless it is the bare root. -/
theorem parts_plain_iff :
    parts ⟨path.plain⟩ = path.parts.filter (· ≠ .here) ↔ path.parts ≠ [.root] := by
  constructor
  · intro h hbare
    rw [plain_of_bare hbare, hbare] at h
    exact absurd h (by decide)
  · exact fun h => (recalls_of_alike (lasts_iff.2 h).alike_plain).parts_eq

theorem recalls_plain_iff : path.Recalls path.plain ↔ path.parts ≠ [.root] :=
  ⟨fun h => parts_plain_iff.1 h.parts_eq, fun h => recalls_of_alike (lasts_iff.2 h).alike_plain⟩

end Path

open StyleTokens.Path (Alike Recalls)

section

variable {world after : FallibleHost} {vault : Vault} {files : List String} {manifest : Manifest}
  {path : Path} {data : ByteArray} {file entry : String} {catalog : Catalog}

/-! ### Where files are written -/

namespace Disk

variable {disk later : Disk} {links : Nat} {place : Place} {pieces : List String} {found : Found}
  {followLast : Bool}

/-- Pieces that lead nowhere stay where they are. -/
theorem Walk.of_idle (h : disk.Walk followLast links place pieces found)
    (hidle : ∀ piece ∈ pieces, Path.IsIdle piece) :
    ∃ entry, disk.entry? place = some entry ∧ found = .at place entry := by
  induction h with
  | arrive he => exact ⟨_, he, rfl⟩
  | idle _ _ ih => exact ih fun piece hm => hidle piece (List.mem_cons_of_mem _ hm)
  | up _ _ => exact absurd (hidle ".." List.mem_cons_self) (by decide)
  | missing hn _ | enter hn _ _ _ | leaf hn _ _ _ | lastLink _ hn _ | turn hn _ _ _ _ =>
    exact absurd (hidle _ List.mem_cons_self) hn.not_idle

/-- **A file that is written is not at the bare root**, which is a directory. -/
theorem lasts_of_write (h : disk.write path data = .ok later) : path.Lasts := by
  intro habs hmoves
  obtain ⟨found, hf, hcases⟩ := write_cases h
  have hwalk := (find_eq_ok_iff.1 hf).2
  rw [Path.origin, if_pos habs] at hwalk
  -- without moves, the walk ends where it begins
  obtain ⟨entry, hentry, rfl⟩ := hwalk.of_idle fun piece hp => by
    by_contra hidle
    exact List.ne_nil_of_mem (List.mem_filter.2 ⟨hp, by simpa using hidle⟩) hmoves
  obtain rfl : Entry.directory = entry := Option.some.inj (entry?_nil.symm.trans hentry)
  obtain ⟨-, hold⟩ | ⟨-, _, _, hdevice⟩ := hcases
  · obtain ⟨_, hdir⟩ | ⟨_, hdir⟩ := hold _ _ rfl <;> cases hdir
  · cases hdevice

end Disk

theorem Action.lasts_of_writeFile (h : world.run (writeFile path data).attempt = (.ok (), after)) :
    path.Lasts := by
  obtain ⟨middle, -, hreply⟩ := exists_write_of_writeFile h
  exact Disk.lasts_of_write (FallibleHost.reply_write_ok (congrArg Prod.fst hreply))

/-! ### What a manifest names -/

namespace Vault

theorem lasts_of_writeCopy
    (h : world.run (writeCopy path data file).attempt = (.ok (), after)) : path.Lasts := by
  unfold writeCopy at h
  obtain ⟨_, middle, hwrite, -⟩ := FallibleHost.run_action_bind_ok h
  exact Action.lasts_of_writeFile hwrite

/-- Each entry comes from a file that was copied at its turn. -/
theorem exists_run_of_copyAll (vault : Vault) (files : List String) (world : FallibleHost) :
    ∀ entry ∈ (world.run (vault.copyAll files)).1.1, ∃ (file : String) (start last : FallibleHost),
      start.run (vault.snapshotOne file).attempt = (.ok entry, last) := by
  induction files generalizing world with
  | nil => exact fun _ he => nomatch he
  | cons file others ih =>
    rw [run_copyAll_cons]
    have hrest := ih (world.run (vault.snapshotOne file).attempt).2
    rcases hfirst : world.run (vault.snapshotOne file).attempt with ⟨fault | entry, next⟩
    · rw [hfirst] at hrest
      exact hrest
    · rw [hfirst] at hrest
      exact List.forall_mem_cons.2 ⟨⟨file, world, next, hfirst⟩, hrest⟩

theorem lasts_pristinePath (vault : Vault) (file : String) : (vault.pristinePath file).Lasts := by
  intro _
  rw [moves_pristinePath]
  simp

/-- An entry whose copies can be found again. -/
structure Recallable (vault : Vault) (entry : BackupEntry) : Prop where
  backup : (vault.backupPath entry.file).Recalls entry.backup
  pristine : ∃ text, entry.pristine = some text ∧ (vault.pristinePath entry.file).Recalls text

/-- **The copies of a manifest can be found again**, wherever the vault is. -/
theorem recalls_of_run_snapshot
    (h : world.run (vault.snapshot files).attempt = (.ok manifest, after)) :
    ∀ entry ∈ manifest.entries, vault.Recallable entry := by
  obtain ⟨next, -, hentries, -, -⟩ := run_snapshot_ok h
  intro entry he
  rw [hentries] at he
  obtain ⟨file, start, last, hrun⟩ := exists_run_of_copyAll vault files world entry he
  obtain ⟨data, copied, asked, there, hsteps⟩ := exists_steps hrun
  obtain ⟨known, -, hcopy⟩ := hsteps.known
  obtain rfl := hsteps.entry_eq
  exact ⟨Path.recalls_of_alike (lasts_of_writeCopy hcopy).alike_plain, _, rfl,
    Path.recalls_of_alike (lasts_pristinePath vault file).alike_plain⟩

end Vault

/-! ### What a listing names -/

namespace Catalog

/-- From a root that is relative, nothing absolute is seen. -/
theorem eq_plain_of_relative (h : catalog.entryPath entry = .ok file)
    (hrel : (entryOf entry).isAbsolute = false ∨ catalog.root.isAbsolute = false) :
    file = (entryOf entry).plain := by
  have hfile := eq_plain_of_entryPath h
  generalize entryOf entry = path at *
  cases habs : path.isAbsolute with
  | false => rwa [habs] at hfile
  | true =>
    have hroot := hrel.resolve_left (by simp [habs])
    have hhead : path.parts.head? ≠ some .up := by
      rw [Path.parts_of_absolute habs]
      simp
    rwa [if_pos habs, Path.relativeTo?, if_pos (by simp [habs, hroot]), if_pos habs,
      Option.filter_some, if_pos (by simpa using hhead), Option.getD_some] at hfile

/-- The bare root is taken for nothing. -/
theorem eq_empty_of_bare (h : catalog.entryPath entry = .ok file)
    (hbare : (entryOf entry).parts = [.root]) : file = "" := by
  obtain ⟨habs, hmoves⟩ := Path.bare_iff.1 hbare
  by_cases hroot : catalog.root.isAbsolute = true
  · have hfile := eq_plain_of_entryPath h
    rw [if_pos habs] at hfile
    generalize entryOf entry = path at *
    cases hbelow : (path.relativeTo? catalog.root).filter (·.parts.head? ≠ some .up) with
    | none =>
      rw [hfile, hbelow, Option.getD_none, Path.plain_of_bare hbare]
    | some below =>
      obtain ⟨hrelative, hhead⟩ := Option.filter_eq_some_iff.1 hbelow
      obtain ⟨hrel, hsplit⟩ := Path.moves_of_relativeTo? habs hroot hrelative (by simpa using hhead)
      -- there are no moves to split, so that none are left below the root
      rw [hmoves] at hsplit
      rw [hfile, hbelow, Option.getD_some, Path.plain, Path.texts_parts, hrel,
        (List.append_eq_nil_iff.1 hsplit.symm).2]
      rfl
  · rw [eq_plain_of_relative h (Or.inr (Bool.eq_false_iff.2 hroot)), Path.plain_of_bare hbare]

/-- **An entry leads where it was to lead**, seen from the root, unless it is the bare root and the
root of the project is not. -/
theorem alike_entryPath_iff (h : catalog.entryPath entry = .ok file) :
    Alike (catalog.root.under ⟨file⟩) (catalog.root.under (entryOf entry)) ↔
      ((entryOf entry).parts = [.root] → catalog.root.parts = [.root]) := by
  by_cases hbare : (entryOf entry).parts = [.root]
  · -- the bare root is listed as nothing, which is where the root is
    obtain ⟨habs, hmoves⟩ := Path.bare_iff.1 hbare
    obtain rfl := eq_empty_of_bare h hbare
    have hempty : Path.isAbsolute ⟨""⟩ = false := rfl
    have hnone : Path.moves ⟨""⟩ = [] := rfl
    rw [Alike, Path.isAbsolute_under _ hempty, Path.moves_under _ hempty, hnone, List.append_nil,
      Path.under, if_pos habs, habs, hmoves, ← Path.bare_iff, forall_prop_of_true hbare]
  · refine iff_of_true ?_ fun he => absurd he hbare
    have hlasts := Path.lasts_iff.2 hbare
    by_cases hboth : (entryOf entry).isAbsolute = true ∧ catalog.root.isAbsolute = true
    · refine ⟨(isAbsolute_under hboth.2 _).trans (isAbsolute_under hboth.2 _).symm, ?_⟩
      exact (location_eq_iff hboth.2).1 (location_entryPath hboth.2 h hlasts)
    · obtain rfl := eq_plain_of_relative h ((not_and_or.1 hboth).imp
        Bool.eq_false_iff.2 Bool.eq_false_iff.2)
      exact hlasts.alike_plain.under catalog.root

/-- The parts of a file that a glob lists are the names that lead to it. -/
theorem parts_intercalate {names : List String} (h : ∀ name ∈ names, Path.IsLabel name) :
    Path.parts ⟨"/".intercalate names⟩ = names.map .name := by
  have hplain := Path.parts_plain ⟨"/".intercalate names⟩
  rw [(Path.spelled_intercalate h).plain_eq, Path.visible_eq, Path.isAbsolute_intercalate h,
    Path.moves_intercalate h] at hplain
  rw [hplain]
  exact List.map_congr_left fun name hn => if_neg (h name hn).ne_up

end Catalog

end

/-- **What is written down to be read later denotes what it was made for**, the bare root aside.
The parts of a path can be read from its plain form just if it is not the bare root, and then the
plain form leads where the path does.  So the manifest of a snapshot names its root, and the copies
of each of its entries, wherever they are; an accepted entry of a report leads where it was to lead;
and what a glob lists is read as the names by which it was found. -/
theorem addresses_kept (path : Path) (vault : Vault) (catalog : Catalog)
    (world later : FallibleHost) :
    ((Path.parts ⟨path.plain⟩ = path.parts.filter (· ≠ .here) ↔ path.parts ≠ [.root]) ∧
      (path.parts ≠ [.root] → ∀ disk : Disk,
        disk.destination ⟨path.plain⟩ = disk.destination path)) ∧
    (∀ (files : List String) (manifest : Manifest),
      world.run (vault.snapshot files).attempt = (.ok manifest, later) →
      (vault.sourceRoot.Recalls manifest.sourceRoot ↔ vault.sourceRoot.parts ≠ [.root]) ∧
      (vault.sourceRoot.parts ≠ [.root] → ∀ (disk : Disk) (file : String),
        disk.destination (Path.under ⟨manifest.sourceRoot⟩ ⟨file⟩) =
          disk.destination (vault.sourceRoot.under ⟨file⟩)) ∧
      ∀ entry ∈ manifest.entries, vault.Recallable entry) ∧
    (∀ entry file : String, catalog.entryPath entry = .ok file →
      (Alike (catalog.root.under ⟨file⟩) (catalog.root.under (Catalog.entryOf entry)) ↔
        ((Catalog.entryOf entry).parts = [.root] → catalog.root.parts = [.root]))) ∧
    ∀ (text : String) (files : Names) (top : Place), world.disk.IsTree →
      world.disk.find true catalog.root = .ok (.at top .directory) →
      world.run (catalog.listGlob text).attempt = (.ok files, later) →
      ∀ file ∈ files.toList, ∃ names, Path.parts ⟨file⟩ = names.map .name ∧
        (world.disk.file? (top ++ names)).isSome ∧
        world.disk.destination (catalog.root.under ⟨file⟩) = some (top ++ names) := by
  refine ⟨⟨Path.parts_plain_iff, fun h => (Path.recalls_plain_iff.2 h).destination_eq⟩,
    fun files manifest h => ?snapshot, fun entry file h => Catalog.alike_entryPath_iff h,
    fun text files top htree htop h file hf => ?glob⟩
  case snapshot =>
    have hroot := Vault.sourceRoot_of_run_snapshot h
    rw [hroot]
    exact ⟨Path.recalls_plain_iff, fun hbare disk file =>
      Vault.destination_under_plain (Path.lasts_iff.2 hbare) disk file,
      Vault.recalls_of_run_snapshot h⟩
  case glob =>
    obtain ⟨names, data, rfl, hfile, -, hnames⟩ := Catalog.exists_names htree htop h hf
    exact ⟨names, Catalog.parts_intercalate hnames, by rw [hfile]; rfl,
      Disk.destination_of_file htree.rooted htop hfile hnames⟩

/-! ### A project at the bare root -/

namespace Sample

/-- A snapshot of two files, an entry with dots and slashes too many, and what a glob lists. -/
theorem addresses_recalled :
    (∃ manifest after, saved drafts ["src/a", "b"] = (.ok manifest, after) ∧
      manifest.entries.map (·.file) = ["src/a", "b"] ∧
      vault.sourceRoot.Recalls manifest.sourceRoot ∧
      (∀ file, drafts.disk.destination (Path.under ⟨manifest.sourceRoot⟩ ⟨file⟩) =
        drafts.disk.destination (vault.sourceRoot.under ⟨file⟩)) ∧
      ∀ entry ∈ manifest.entries, vault.Recallable entry) ∧
    (catalog.entryPath " ./a//b.css/ " = .ok "a/b.css" ∧
      Alike (catalog.root.under ⟨"a/b.css"⟩) (catalog.root.under ⟨"./a//b.css/"⟩)) ∧
    ∃ files : Names, files.toList = ["a.css", "b.css", "c.css"] ∧
      ∀ file ∈ files.toList, ∃ names, Path.parts ⟨file⟩ = names.map .name ∧
        (disk.file? (["p"] ++ names)).isSome ∧
        disk.destination (catalog.root.under ⟨file⟩) = some (["p"] ++ names) := by
  refine ⟨?_, ?_, ?_⟩
  · obtain ⟨manifest, after, hsaved, -, hfiles⟩ := exists_saved drafts ["src/a", "b"]
      [("src/a", 1), ("b", 1)] (by decide +kernel) (by decide)
    obtain ⟨-, hsnapshot, -⟩ := addresses_kept vault.sourceRoot vault catalog drafts after
    obtain ⟨hroot, hunder, hentries⟩ := hsnapshot ["src/a", "b"] manifest hsaved
    exact ⟨manifest, after, hsaved, hfiles, hroot.2 (by decide), hunder (by decide) drafts.disk,
      hentries⟩
  · have hfile : catalog.entryPath " ./a//b.css/ " = .ok "a/b.css" := by decide +kernel
    have hparts : (Catalog.entryOf " ./a//b.css/ ").parts ≠ [.root] := by decide +kernel
    have htrimmed : Catalog.entryOf " ./a//b.css/ " = ⟨"./a//b.css/"⟩ := by decide +kernel
    obtain ⟨-, -, hentry, -⟩ := addresses_kept vault.sourceRoot vault catalog drafts drafts
    exact ⟨hfile, htrimmed ▸ (hentry _ _ hfile).2 fun hbare => absurd hbare hparts⟩
  · have hlisted := listed_by_glob
    rcases hrun : (Sample.world fun _ => true).run (catalog.list (.glob "**/*.css")).attempt with
      ⟨_ | files, later⟩
    · rw [hrun] at hlisted
      cases hlisted
    · rw [hrun] at hlisted
      obtain ⟨-, -, -, hglob⟩ :=
        addresses_kept vault.sourceRoot vault catalog (Sample.world fun _ => true) later
      exact ⟨files, Option.some.inj hlisted, hglob "**/*.css" files ["p"] isTree rfl hrun⟩

/-- A vault for files below the bare root. -/
def topVault : Vault where
  sourceRoot := ⟨"/"⟩
  backupRoot := ⟨"/p/backups"⟩

/-- **The bare root is lost**: its plain form is read as nothing, and a file below it is put back
below the working directory. -/
theorem bareRoot_lost :
    (¬ ∀ path : Path, Path.parts ⟨path.plain⟩ = path.parts.filter (· ≠ .here)) ∧
    ∃ manifest after, drafts.run (topVault.snapshot ["p/b"]).attempt = (.ok manifest, after) ∧
      manifest.entries.map (·.file) = ["p/b"] ∧ manifest.sourceRoot = "" ∧
      drafts.disk.destination (topVault.sourceRoot.under ⟨"p/b"⟩) = some ["p", "b"] ∧
      drafts.disk.destination (Path.under ⟨manifest.sourceRoot⟩ ⟨"p/b"⟩) =
        some ["p", "p", "b"] := by
  refine ⟨fun h => absurd (h ⟨"/"⟩) (by decide), ?_⟩
  have hlisted : (drafts.run (topVault.snapshot ["p/b"]).attempt).1.toOption.map
      (fun manifest => manifest.entries.map (·.file)) = some ["p/b"] := by
    decide +kernel
  rcases hrun : drafts.run (topVault.snapshot ["p/b"]).attempt with ⟨_ | manifest, after⟩
  · rw [hrun] at hlisted
    cases hlisted
  · rw [hrun] at hlisted
    have hroot : manifest.sourceRoot = "" :=
      (Vault.sourceRoot_of_run_snapshot hrun).trans (by decide)
    refine ⟨manifest, after, rfl, Option.some.inj hlisted, hroot, by decide +kernel, ?_⟩
    rw [hroot]
    decide +kernel

end Sample

end StyleTokens

/-
A glob lists what a walk meets, and what is hidden with the directory of the backups.

The walk goes down from the root, whatever the name of that is.  It enters no directory with
a name that is to be skipped, at any depth, and meets the files of those that it enters; a
file is met under any name.  The listing does not know where the directory of the backups is: it
skips every directory with its name.  So the copies are hidden wherever the directory is, and with
them what lies in other directories of that name.

* `Disk.Meets` — the files that the walk meets;
* `meets_iff` — those with no directory above them that is to be skipped, the root aside;
* `glob_listing_exact` — a glob lists what the walk meets and the glob accepts, in order;
* `Disk.LeadsInto` — a path that leads below where another one leads;
* `Catalog.toList_pick_skippingBackups` — what is left of a listing;
* `hiding_backups` — what is hidden by name, and that no copy is listed;
* `Sample.namesake_hidden` — a file that is no copy and is hidden.

Design notes: the listing takes all files below the root and drops those with certain
directories above them.  That the walk comes to the same is an induction on the names that
lead to a file.  Links are not entered, so that nothing is met along one.  A directory that the
listing starts from is entered under any name, so that copies are listed when the root is in their
directory.  A link at the end of the path of the backups gives the copies a directory of another
name.
-/
import StyleTokens.Proofs.Catalog.Listing
import StyleTokens.Proofs.Disk.Look
import StyleTokens.Proofs.Glob.Ending

namespace StyleTokens

variable {world : FallibleHost} {disk : Disk} {catalog : Catalog} {glob : Glob} {top place : Place}
  {names skipped : List String} {text : String}

namespace Disk

/-- What is met on a walk down from a place, by the names that lead there. -/
inductive Meets (disk : Disk) (skipped : List String) : Place → List String → Prop
  /-- A file of the directory, under any name. -/
  | file {place : Place} {name : String} {data : ByteArray}
      (hfile : disk.file? (place ++ [name]) = some data) : Meets disk skipped place [name]
  /-- What is met in one of its directories. -/
  | enter {place : Place} {name : String} {names : List String} (hname : name ∉ skipped)
      (hdirectory : disk.entry? (place ++ [name]) = some .directory)
      (hmeets : Meets disk skipped (place ++ [name]) names) :
      Meets disk skipped place (name :: names)

/-- **What is met** are the files with no directory above them that is to be skipped. -/
theorem meets_iff (hrooted : disk.Rooted) :
    disk.Meets skipped place names ↔ names ≠ [] ∧ (disk.file? (place ++ names)).isSome ∧
      ∀ name ∈ names.dropLast, name ∉ skipped := by
  constructor
  · intro h
    induction h with
    | file hfile => simp [hfile]
    | @enter place name names hname hdirectory _ ih =>
      obtain ⟨hne, hfile, habove⟩ := ih
      refine ⟨by simp, by simpa using hfile, ?_⟩
      rw [List.dropLast_cons_of_ne_nil hne]
      exact List.forall_mem_cons.2 ⟨hname, habove⟩
  · induction names generalizing place with
    | nil => exact fun h => absurd rfl h.1
    | cons name names ih =>
      rintro ⟨-, hfile, habove⟩
      by_cases hne : names = []
      · subst hne
        obtain ⟨data, hdata⟩ := Option.isSome_iff_exists.1 hfile
        exact .file hdata
      · rw [List.dropLast_cons_of_ne_nil hne] at habove
        obtain ⟨hname, habove⟩ := List.forall_mem_cons.1 habove
        rw [List.append_cons] at hfile
        obtain ⟨data, hdata⟩ := Option.isSome_iff_exists.1 hfile
        exact .enter hname (hrooted.directory (file?_eq_some_iff.1 hdata) hne)
          (ih ⟨hne, hfile, habove⟩)

/-- There is no file where there is a directory. -/
theorem ne_nil_of_file (hroot : disk.entry? top = some .directory)
    (hfile : (disk.file? (top ++ names)).isSome) : names ≠ [] := by
  rintro rfl
  obtain ⟨data, hdata⟩ := Option.isSome_iff_exists.1 hfile
  rw [List.append_nil, file?_eq_some_iff, hroot] at hdata
  cases hdata

end Disk

/-- **A glob lists exactly what the walk meets and the glob accepts**, each file once and in
order: the files below the root of which no directory above them, short of the root, is to
be skipped. -/
theorem glob_listing_exact (h : world.Grants) (htree : world.disk.IsTree)
    (hroot : world.disk.find true catalog.root = .ok (.at top .directory))
    (hparse : Glob.parse text = .ok glob) :
    ∃ files, (world.run (catalog.list (.glob text)).attempt).1 = .ok files ∧
      files.toList.Pairwise (· < ·) ∧ ∀ file,
        (file ∈ files.toList ↔ ∃ names, file = "/".intercalate names ∧
          world.disk.Meets catalog.skipped top names ∧ glob.accepts file = true) ∧
        (file ∈ files.toList ↔ ∃ names, file = "/".intercalate names ∧
          (world.disk.file? (top ++ names)).isSome ∧
          (∀ name ∈ names.dropLast, name ∉ catalog.skipped) ∧ glob.accepts file = true) := by
  obtain ⟨found, hfound⟩ := Catalog.files_of_directory hroot
  have htop : world.disk.entry? top = some .directory := (Disk.find_eq_ok_iff.1 hroot).2.entry?_at
  have hexact (file : String) : file ∈ (catalog.pick glob found).toList ↔
      ∃ names, file = "/".intercalate names ∧ (world.disk.file? (top ++ names)).isSome ∧
        (∀ name ∈ names.dropLast, name ∉ catalog.skipped) ∧ glob.accepts file = true := by
    rw [Catalog.mem_pick_iff htree.once hroot hfound]
    constructor
    · rintro ⟨names, rfl, ⟨other, heq, hhides, haccepts⟩, hfile⟩
      obtain rfl : names = other := List.append_cancel_left heq
      exact ⟨names, rfl, hfile, Catalog.hides_eq_false_iff.1 hhides, haccepts⟩
    · rintro ⟨names, rfl, hfile, habove, haccepts⟩
      exact ⟨names, rfl, ⟨names, rfl, Catalog.hides_eq_false_iff.2 habove, haccepts⟩, hfile⟩
  refine ⟨_, h.run_listGlob hroot hparse hfound, Names.ascending _, fun file => ⟨?_, hexact file⟩⟩
  rw [hexact]
  refine exists_congr fun names => and_congr_right fun _ => ?_
  rw [Disk.meets_iff htree.rooted, ← and_assoc, and_congr_left_iff]
  exact fun _ => ⟨fun ⟨hfile, habove⟩ => ⟨Disk.ne_nil_of_file htop hfile, hfile, habove⟩,
    fun ⟨_, hfile, habove⟩ => ⟨hfile, habove⟩⟩

namespace Sample

/-- A project whose root has a name that is to be skipped, and so has one of its files. -/
def vendored : FallibleHost where
  host := {
    disk := {
      entries := [
        (["vendor"], .directory),
        (["vendor", "a.css"], .file .empty),
        (["vendor", "a.txt"], .file .empty),
        (["vendor", "b"], .directory),
        (["vendor", "b", "x.css"], .file .empty),
        (["vendor", "b", "vendor"], .directory),
        (["vendor", "b", "vendor", "c.css"], .file .empty),
        (["vendor", "x.css"], .directory),
        (["vendor", "x.css", "d.css"], .file .empty)]
      here := ["vendor"] } }

/-- Names are skipped where directories have them, below the root. -/
theorem listed_of_vendored :
    let catalog : Catalog := { root := ⟨"/vendor"⟩, skipped := ["vendor", "x.css"] }
    ∃ files, (vendored.run (catalog.list (.glob defaultGlob)).attempt).1 = .ok files ∧
      files.toList = ["a.css", "b/x.css"] ∧
      ∀ file, file ∈ files.toList ↔ ∃ names, file = "/".intercalate names ∧
        vendored.disk.Meets catalog.skipped ["vendor"] names ∧
          Glob.sources.accepts file = true := by
  intro catalog
  have htree : vendored.disk.IsTree :=
    Disk.isTree_of_entries (by decide) (by decide) (by decide +kernel)
  have hroot : vendored.disk.find true ⟨"/vendor"⟩ = .ok (.at ["vendor"] .directory) := rfl
  obtain ⟨files, hlisted, -, hexact⟩ :=
    @glob_listing_exact vendored catalog Glob.sources ["vendor"] defaultGlob (fun _ _ => rfl) htree
      hroot Glob.parse_defaultGlob
  refine ⟨files, hlisted, ?_, fun file => (hexact file).1⟩
  have hcomputed : (vendored.run (catalog.list (.glob defaultGlob)).attempt).1.toOption.map
      (·.toList) = some ["a.css", "b/x.css"] := by
    decide +kernel
  rw [hlisted] at hcomputed
  exact Option.some.inj hcomputed

end Sample

/-! ### The directory of the backups -/

open Path (IsLabel Spelled labels)

variable {file name : String} {path root backups : Path}

/-- Names that are chosen from others, both in order. -/
theorem Names.toList_eq_filter {some all : Names} {chosen : String → Bool}
    (h : ∀ name, name ∈ some.toList ↔ name ∈ all.toList ∧ chosen name = true) :
    some.toList = all.toList.filter chosen := by
  have heq : some = ⟨all.toList.filter chosen, all.ascending.filter chosen⟩ :=
    Names.ext_mem fun name => (h name).trans List.mem_filter.symm
  exact congrArg Names.toList heq

/-- A path with a name at its end. -/
theorem Path.moves_of_fileName (h : path.fileName? = some name) :
    IsLabel name ∧ ∃ front, path.moves = front ++ [name] := by
  have hlast : path.parts.getLast? = some (.name name) := by
    unfold fileName? at h
    split at h
    · next text hlast =>
      obtain rfl := Option.some.inj h
      exact hlast
    · cases h
  obtain ⟨front, hparts⟩ := List.getLast?_eq_some_iff.1 hlast
  have hname : IsLabel name := isLabel_of_mem_parts (hparts ▸ List.mem_concat_self)
  refine ⟨hname, (front.map Part.text).filter fun piece => ¬ IsIdle piece, ?_⟩
  rw [moves_eq_texts, hparts, List.map_append, List.filter_append]
  simp [Part.text, hname.not_idle]

/-- A path leads below where another one leads. -/
def Disk.LeadsInto (disk : Disk) (path other : Path) : Prop :=
  ∃ place rest, rest ≠ [] ∧ disk.destination other = some place ∧
    disk.destination path = some (place ++ rest)

namespace Catalog

/-- **What is left of a listing** when the directory of the backups is skipped: the files with
no directory of its name above them. -/
theorem toList_pick_skippingBackups (hname : backups.fileName? = some name)
    {found : List (List String)} (hfound : ∀ names ∈ found, ∀ name ∈ names, IsLabel name) :
    ((catalog.skippingBackups backups).pick glob found).toList =
      (catalog.pick glob found).toList.filter fun file => name ∉ (labels ⟨file⟩).dropLast := by
  have hlabels {names : List String} (h : names ∈ found) :
      labels ⟨"/".intercalate names⟩ = names := by
    rw [(Path.spelled_intercalate (hfound names h)).labels_eq,
      Path.moves_intercalate (hfound names h)]
  have hhides (names : List String) : (catalog.skippingBackups backups).hides names = false ↔
      catalog.hides names = false ∧ name ∉ names.dropLast := by
    simp only [hides_eq_false_iff, mem_skipped_skippingBackups_iff hname, not_or, forall_and]
    exact and_congr_right fun _ =>
      ⟨fun h hmem => h name hmem rfl, fun h other hmem he => h (he ▸ hmem)⟩
  refine Names.toList_eq_filter fun file => ?_
  simp only [pick, Names.mem_ofList, List.mem_filter, List.mem_map, decide_eq_true_eq,
    Bool.not_eq_true']
  constructor
  · rintro ⟨⟨names, ⟨hmem, hkept⟩, rfl⟩, haccepts⟩
    obtain ⟨hkept, habove⟩ := (hhides names).1 hkept
    exact ⟨⟨⟨names, ⟨hmem, hkept⟩, rfl⟩, haccepts⟩, by rwa [hlabels hmem]⟩
  · rintro ⟨⟨⟨names, ⟨hmem, hkept⟩, rfl⟩, haccepts⟩, habove⟩
    rw [hlabels hmem] at habove
    exact ⟨⟨names, ⟨hmem, (hhides names).2 ⟨hkept, habove⟩⟩, rfl⟩, haccepts⟩

end Catalog

/-- **What is hidden with the directory of the backups** are the files below directories with
its name, short of the root, and nothing else.  Its own files are among them, unless there
is a link at the end of its path, or the root is not outside of it. -/
theorem hiding_backups (world : FallibleHost) (catalog : Catalog) (text : String)
    (htree : world.disk.IsTree) (hname : backups.fileName? = some name) :
    let shown := (world.run (catalog.list (.glob text)).attempt).1
    let kept := (world.run ((catalog.skippingBackups backups).list (.glob text)).attempt).1
    kept.map (·.toList) =
        shown.map (·.toList.filter fun file => name ∉ (labels ⟨file⟩).dropLast) ∧
      ∀ files, kept = .ok files → ∀ top,
        world.disk.find true catalog.root = .ok (.at top .directory) →
        (∀ place, world.disk.destination backups = some place → ¬ place <+: top) →
        ¬ world.disk.EndsInLink backups →
        ∀ file ∈ files.toList, ¬ world.disk.LeadsInto (catalog.root.under ⟨file⟩) backups := by
  intro shown kept
  have hroot : (catalog.skippingBackups backups).root = catalog.root :=
    Catalog.root_skippingBackups catalog backups
  constructor
  · have hkept : kept = _ := Catalog.run_list_glob world (catalog.skippingBackups backups) text
    have hshown : shown = _ := Catalog.run_list_glob world catalog text
    rw [hkept, hshown, hroot]
    cases hfound : Catalog.candidates world catalog.root text with
    | error fault => rfl
    | ok found =>
      have hlabels : ∀ names ∈ found.2, ∀ name ∈ names, IsLabel name := fun _ =>
        Catalog.isLabel_of_files htree.once htree.named (Catalog.candidates_ok hfound).2
      exact congrArg Except.ok (Catalog.toList_pick_skippingBackups hname hlabels)
  · rintro files hkept top htop habove hlink file hf ⟨place, rest, hrest, hbackups, hfile⟩
    rw [← hroot] at htop hfile
    obtain ⟨names, data, rfl, hthere, hhides, hnames⟩ :=
      Catalog.exists_names htree htop (Prod.ext hkept rfl) hf
    -- the directory of the copies is at a place with its name
    obtain ⟨hlabel, front, hmoves⟩ := Path.moves_of_fileName hname
    obtain ⟨parent, rfl⟩ := List.getLast?_eq_some_iff.1
      (Disk.getLast?_of_destination hmoves hlabel hlink hbackups)
    rw [Disk.destination_of_file htree.rooted htop hthere hnames] at hfile
    exact Catalog.not_below_backups hname (habove _ hbackups) hrest hhides (Option.some.inj hfile)

namespace Sample

/-- A project with copies, and with a source in a directory that is called like theirs. -/
def namesakes : FallibleHost where
  host := {
    disk := {
      entries := [
        (["p"], .directory),
        (["p", "snapshots"], .directory),
        (["p", "snapshots", "a.css"], .file .empty),
        (["p", "src"], .directory),
        (["p", "src", "c.css"], .file .empty),
        (["p", "src", "snapshots"], .directory),
        (["p", "src", "snapshots", "b.css"], .file .empty)]
      here := ["p"] } }

theorem isTree_namesakes : namesakes.disk.IsTree :=
  Disk.isTree_of_entries (by decide) (by decide) (by decide +kernel)

/-- The copies of that project are hidden, with a dot at the end of their path as well. -/
theorem copies_hidden :
    let catalog : Catalog := { root := ⟨"/p"⟩ }
    let backups : Path := ⟨"snapshots/."⟩
    let kept :=
      (namesakes.run ((catalog.skippingBackups backups).list (.glob "**/*.css")).attempt).1
    kept.toOption.map (·.toList) = some ["src/c.css"] ∧ ∀ files, kept = .ok files →
      ∀ file ∈ files.toList, ¬ namesakes.disk.LeadsInto (catalog.root.under ⟨file⟩) backups := by
  intro catalog backups kept
  have hname : backups.fileName? = some "snapshots" := by decide
  have hroot : namesakes.disk.find true ⟨"/p"⟩ = .ok (.at ["p"] .directory) := rfl
  have hplace : namesakes.disk.destination ⟨"snapshots/."⟩ = some ["p", "snapshots"] := by
    decide +kernel
  have hlink : ¬ namesakes.disk.EndsInLink ⟨"snapshots/."⟩ := by
    rintro ⟨_, _, _, -, -, hlink⟩
    rw [Disk.link?_eq_none_of_entries (by simp [namesakes])] at hlink
    cases hlink
  refine ⟨by decide +kernel, fun files hkept => ?_⟩
  refine (hiding_backups namesakes catalog "**/*.css" isTree_namesakes hname).2 files hkept ["p"]
    hroot (fun place hp => ?_) hlink
  obtain rfl := Option.some.inj (hplace.symm.trans hp)
  decide

/-- **More than the copies is hidden**: a file that is not where the copies are, but is in a
directory with the same name, is listed only as long as that directory is not skipped. -/
theorem namesake_hidden :
    let catalog : Catalog := { root := ⟨"/p"⟩ }
    let backups : Path := ⟨"/p/snapshots"⟩
    ((namesakes.run (catalog.list (.glob "**/*.css")).attempt).1.toOption.map (·.toList) =
      some ["snapshots/a.css", "src/c.css", "src/snapshots/b.css"]) ∧
    ((namesakes.run ((catalog.skippingBackups backups).list
      (.glob "**/*.css")).attempt).1.toOption.map (·.toList) = some ["src/c.css"]) ∧
    ¬ namesakes.disk.LeadsInto (catalog.root.under ⟨"src/snapshots/b.css"⟩) backups := by
  refine ⟨by decide +kernel, by decide +kernel, ?_⟩
  rintro ⟨place, rest, -, hbackups, hfile⟩
  have hplace : namesakes.disk.destination ⟨"/p/snapshots"⟩ = some ["p", "snapshots"] := by
    decide +kernel
  have hsource : namesakes.disk.destination ((Path.mk "/p").under ⟨"src/snapshots/b.css"⟩) =
      some ["p", "src", "snapshots", "b.css"] := by
    decide +kernel
  obtain rfl := Option.some.inj (hplace.symm.trans hbackups)
  exact absurd (Option.some.inj (hsource.symm.trans hfile)) (by simp)

end Sample

end StyleTokens

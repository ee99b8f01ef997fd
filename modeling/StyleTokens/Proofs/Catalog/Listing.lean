/-
What a source lists.

A glob is looked for in all files below the root, but for those in directories that are not
entered; a report is taken at its word.  What is listed is in one form in both cases.

* `Catalog.listed` — what a source lists on a disk, and `Catalog.Sees` — where a glob looks;
* `Catalog.run_list_glob`, `Catalog.run_list_report` — where a listing comes from;
* `Grants.run_listGlob` — a glob lists something where nothing is refused;
* `Catalog.spelled_of_list` — the form in which files are listed;
* `Disk.destination_of_file` — a file below the root is where its path leads.
-/
import StyleTokens.Proofs.Command.Refusal
import StyleTokens.Proofs.Disk.Tree
import StyleTokens.Proofs.World.Granting

namespace StyleTokens

open Path (IsLabel Spelled)

variable {world later : FallibleHost} {disk : Disk} {catalog : Catalog} {glob : Glob}
  {files : Names} {top : Place} {names : List String} {file text : String} {root backups : Path}

namespace FallibleHost

theorem reply_files_ok {root : Path} {found : List (List String)}
    (h : (world.reply (.files root)).1 = .ok found) : world.disk.files root = .ok found := by
  rw [reply_of_not_refused (by simp [h, Request.refusal?])] at h
  exact h

/-- A result that is there already, as an action. -/
theorem run_action_ofExcept {α : Type} (world : FallibleHost) (result : Except Fault α) :
    world.run (liftM result : Action α).attempt = (result, world) := by
  cases result <;> rfl

end FallibleHost

namespace Catalog

/-! ### Where a listing comes from -/

/-- What a source lists on a disk, as long as nothing is refused. -/
def listed (catalog : Catalog) (disk : Disk) (source : Source) : Except Fault Names :=
  (FallibleHost.run { host := { disk } } (catalog.list source).attempt).1

/-- Where a glob looks for files. -/
def Sees (catalog : Catalog) (glob : Glob) (top place : Place) : Prop :=
  ∃ names, place = top ++ names ∧ catalog.hides names = false ∧
    glob.accepts ("/".intercalate names) = true

/-- What a glob lists, of the files below a root. -/
def pick (catalog : Catalog) (glob : Glob) (found : List (List String)) : Names :=
  .ofList (((found.filter (!catalog.hides ·)).map ("/".intercalate ·)).filter glob.accepts)

/-- The glob of a text, and the files of which it picks some. -/
def candidates (world : FallibleHost) (root : Path) (text : String) :
    Except Fault (Glob × List (List String)) := do
  let (present, asked) := world.run (Action.ensurePresent root).attempt
  present
  let glob ← Glob.parse text
  match (asked.reply (.files root)).1 with
  | .error cause => throw (.invalidArgument (.unwalkable root.text cause))
  | .ok found => return (glob, found)

/-- **What a glob lists** is picked of files that do not depend on what is to be skipped. -/
theorem run_list_glob (world : FallibleHost) (catalog : Catalog) (text : String) :
    (world.run (catalog.list (.glob text)).attempt).1 =
      (candidates world catalog.root text).map fun (glob, found) => catalog.pick glob found := by
  show (world.run (catalog.listGlob text).attempt).1 = _
  rw [listGlob, FallibleHost.run_action_bind]
  unfold candidates
  rcases world.run (Action.ensurePresent catalog.root).attempt with ⟨fault | _, present⟩
  · rfl
  dsimp only
  rw [FallibleHost.run_action_bind, FallibleHost.run_action_ofExcept]
  cases Glob.parse text with
  | error fault => rfl
  | ok glob =>
    dsimp only
    rw [FallibleHost.run_action_bind, FallibleHost.run_action_lift, FallibleHost.run_request]
    dsimp only [bind, Except.bind]
    cases (present.reply (.files catalog.root)).1 <;> rfl

theorem candidates_ok {found : List (List String)}
    (h : candidates world root text = .ok (glob, found)) :
    Glob.parse text = .ok glob ∧ world.disk.files root = .ok found := by
  have hdisk := Script.Obeys.disk_run (Action.ensurePresent_obeys root) world
  unfold candidates at h
  rcases hpresent : world.run (Action.ensurePresent root).attempt with ⟨fault | _, present⟩
  · rw [hpresent] at h
    cases h
  rw [hpresent] at h hdisk
  cases hparse : Glob.parse text with
  | error fault =>
    rw [hparse] at h
    cases h
  | ok parsed =>
    rw [hparse] at h
    cases hreply : (present.reply (.files root)).1 with
    | error cause =>
      simp only [hreply] at h
      cases h
    | ok all =>
      simp only [hreply] at h
      obtain ⟨rfl, rfl⟩ := Prod.mk.inj (Except.ok.inj h)
      rw [← show present.disk = world.disk from hdisk]
      exact ⟨rfl, FallibleHost.reply_files_ok hreply⟩

/-- What is listed by a glob is picked of the files below the root. -/
theorem run_listGlob (h : world.run (catalog.listGlob text).attempt = (.ok files, later)) :
    ∃ glob found, Glob.parse text = .ok glob ∧ world.disk.files catalog.root = .ok found ∧
      files = catalog.pick glob found := by
  have hlist := run_list_glob world catalog text
  rw [show catalog.list (.glob text) = catalog.listGlob text from rfl, h] at hlist
  cases hfound : candidates world catalog.root text with
  | error fault =>
    rw [hfound] at hlist
    cases hlist
  | ok found =>
    rw [hfound] at hlist
    obtain ⟨hparse, hfiles⟩ := candidates_ok hfound
    exact ⟨found.1, found.2, hparse, hfiles, Except.ok.inj hlist⟩

/-- The entries that are written in a report at some path. -/
def written (path : Path) (text : String) : Except Fault (List String) :=
  match Json.read text with
  | .error reason => throw (.json reason)
  | .ok document =>
    match document.plain? Json.depthLimit with
    | none => throw (.json "value out of range")
    | some document =>
      match reportEntries? document with
      | none => throw (.invalidArgument (.noFileList path.text))
      | some entries => return entries

theorem written_eq_ok {path : Path} {document plain : Json} {entries : List String}
    (hread : Json.read text = .ok document) (hplain : document.plain? Json.depthLimit = some plain)
    (hentries : reportEntries? plain = some entries) : written path text = .ok entries := by
  unfold written
  rw [hread]
  dsimp only
  rw [hplain]
  dsimp only
  rw [hentries]
  rfl

/-- **What a report lists** when it is there and can be read: what its entries stand for. -/
theorem run_list_report {path : Path} {text : String} {present : FallibleHost}
    (hpresent : world.run (Action.ensurePresent (catalog.root.under path)).attempt =
      (.ok (), present))
    (hread : (present.run (Action.readText (catalog.root.under path)).attempt).1 = .ok text) :
    (world.run (catalog.list (.report path)).attempt).1 = do
      let listed ← (← written (catalog.root.under path) text).mapM catalog.entryPath
      return .ofList listed := by
  show (world.run (catalog.listReport path).attempt).1 = _
  rw [listReport, FallibleHost.run_action_bind, hpresent]
  dsimp only
  rw [FallibleHost.run_action_bind]
  rcases hrun : present.run (Action.readText (catalog.root.under path)).attempt with ⟨read, after⟩
  rw [hrun] at hread
  obtain rfl : read = .ok text := hread
  dsimp only
  unfold written
  cases Json.read text with
  | error reason => rfl
  | ok document =>
    dsimp only
    cases document.plain? Json.depthLimit with
    | none => rfl
    | some plain =>
      dsimp only
      cases reportEntries? plain with
      | none => rfl
      | some entries =>
        dsimp only
        rw [FallibleHost.run_action_bind, FallibleHost.run_action_ofExcept]
        show _ = (entries.mapM catalog.entryPath >>= fun listed => pure (Names.ofList listed))
        cases entries.mapM catalog.entryPath <;> rfl

/-- What a report lists: what its entries stand for. -/
theorem run_listReport {path : Path}
    (h : world.run (catalog.listReport path).attempt = (.ok files, later)) :
    ∃ entries listed : List String, entries.mapM catalog.entryPath = .ok listed ∧
      files = .ofList listed := by
  obtain ⟨_, present, hpresent, h'⟩ := FallibleHost.run_action_bind_ok h
  obtain ⟨text, read, hread, -⟩ := FallibleHost.run_action_bind_ok h'
  have hlist := run_list_report hpresent (congrArg Prod.fst hread)
  rw [show catalog.list (.report path) = catalog.listReport path from rfl, h] at hlist
  cases hentries : written (catalog.root.under path) text with
  | error fault =>
    rw [hentries] at hlist
    cases hlist
  | ok entries =>
    rw [hentries] at hlist
    replace hlist : Except.ok files =
      (entries.mapM catalog.entryPath >>= fun listed => pure (Names.ofList listed)) := hlist
    cases hlisted : entries.mapM catalog.entryPath with
    | error fault =>
      rw [hlisted] at hlist
      cases hlist
    | ok listed =>
      rw [hlisted] at hlist
      exact ⟨entries, listed, hlisted, Except.ok.inj hlist⟩

theorem spelled_of_entryPath {entry : String} (h : catalog.entryPath entry = .ok file) :
    Spelled file := by
  unfold entryPath at h
  dsimp only at h
  split at h
  · cases h
  · next hup =>
    have hparts : Part.up ∉ (Path.mk (Text.trimmed entry)).parts := by simpa using hup
    obtain rfl := Except.ok.inj h
    split
    · next habs =>
      cases hbelow : ((Path.mk (Text.trimmed entry)).relativeTo? catalog.root).filter
          (·.parts.head? ≠ some .up) with
      | none => exact Path.spelled_plain (Path.ne_up_of_parts hparts)
      | some below =>
        obtain ⟨hrelative, hhead⟩ := Option.filter_eq_some_iff.1 hbelow
        exact Path.spelled_plain
          (Path.ne_up_of_relativeTo? hrelative habs hparts (by simpa using hhead))
    · exact Path.spelled_plain (Path.ne_up_of_parts hparts)

/-- The names of the files below a directory are names. -/
theorem isLabel_of_files {root : Path} {found : List (List String)} {names : List String}
    (honce : disk.Once) (hnamed : disk.Named) (h : disk.files root = .ok found)
    (hm : names ∈ found) : ∀ name ∈ names, IsLabel name := by
  rcases Disk.files_cases h with rfl | rfl | ⟨top, hroot⟩
  · rw [List.mem_singleton.1 hm]
    exact nofun
  · cases hm
  · obtain ⟨data, hfile⟩ := (Disk.mem_files_iff honce hroot h).1 hm
    exact fun name hn => hnamed _ data hfile name (List.mem_append_right _ hn)

/-- **The form in which files are listed**, by a glob or by a report. -/
theorem spelled_of_list {source : Source} (honce : world.disk.Once) (hnamed : world.disk.Named)
    (h : world.run (catalog.list source).attempt = (.ok files, later)) (hf : file ∈ files.toList) :
    Spelled file := by
  cases source with
  | report path =>
    obtain ⟨entries, listed, hlisted, rfl⟩ := run_listReport h
    obtain ⟨entry, -, hentry⟩ := exists_of_mem_mapM hlisted (Names.mem_ofList.1 hf)
    exact spelled_of_entryPath hentry
  | glob text =>
    obtain ⟨glob, found, -, hfound, rfl⟩ := run_listGlob h
    obtain ⟨names, hnames, rfl⟩ := List.mem_map.1 (List.mem_filter.1 (Names.mem_ofList.1 hf)).1
    exact Path.spelled_intercalate
      (isLabel_of_files honce hnamed hfound (List.mem_filter.1 hnames).1)

/-! ### Directories that are not entered -/

/-- The names that are skipped when the directory of the backups has one. -/
theorem mem_skipped_skippingBackups_iff {name other : String} (h : backups.fileName? = some name) :
    other ∈ (catalog.skippingBackups backups).skipped ↔ other ∈ catalog.skipped ∨ other = name := by
  rw [skippingBackups, h]
  dsimp only
  rw [skipping]
  split
  · next hc =>
    have hmem : name ∈ catalog.skipped := by simpa using hc
    exact ⟨Or.inl, fun ho => ho.elim id fun he => he ▸ hmem⟩
  · simp

theorem hides_eq_false_iff :
    catalog.hides names = false ↔ ∀ name ∈ names.dropLast, name ∉ catalog.skipped := by
  simp [hides]

theorem root_skippingBackups (catalog : Catalog) (backups : Path) :
    (catalog.skippingBackups backups).root = catalog.root := by
  rw [skippingBackups]
  split
  · rw [skipping]
    split <;> rfl
  · rfl

/-- What is skipped stays so. -/
theorem skipped_skippingBackups {name : String} (h : name ∈ catalog.skipped) :
    name ∈ (catalog.skippingBackups backups).skipped := by
  cases hname : backups.fileName? with
  | none => rwa [skippingBackups, hname]
  | some _ => exact (mem_skipped_skippingBackups_iff hname).2 (Or.inl h)

theorem mem_pick_iff (honce : disk.Once)
    (hroot : disk.find true catalog.root = .ok (.at top .directory))
    {found : List (List String)} (hf : disk.files catalog.root = .ok found) :
    file ∈ (catalog.pick glob found).toList ↔ ∃ names, file = "/".intercalate names ∧
      catalog.Sees glob top (top ++ names) ∧ (disk.file? (top ++ names)).isSome := by
  simp only [pick, Names.mem_ofList, List.mem_filter, List.mem_map, Sees,
    Disk.mem_files_iff honce hroot hf, Option.isSome_iff_exists]
  constructor
  · rintro ⟨⟨names, ⟨hfile, hhides⟩, rfl⟩, haccepts⟩
    exact ⟨names, rfl, ⟨names, rfl, by simpa using hhides, haccepts⟩, hfile⟩
  · rintro ⟨names, rfl, ⟨other, heq, hhides, haccepts⟩, hfile⟩
    obtain rfl : names = other := List.append_cancel_left heq
    exact ⟨⟨names, ⟨hfile, by simpa using hhides⟩, rfl⟩, haccepts⟩

/-- There are files to be told below a directory. -/
theorem files_of_directory (hroot : disk.find true root = .ok (.at top .directory)) :
    ∃ found, disk.files root = .ok found := by
  obtain ⟨ha, hwalk⟩ := Disk.find_eq_ok_iff.1 hroot
  obtain ⟨other, hother⟩ := hwalk.exists_of_last_followed
  unfold Disk.files
  rw [Disk.find_eq_ok_iff.2 ⟨ha, hother⟩, hroot]
  dsimp only [bind, Except.bind]
  split <;> exact ⟨_, rfl⟩

end Catalog

/-- **Where nothing is refused, a glob lists the files that it picks**, among those below the
root. -/
theorem FallibleHost.Grants.run_listGlob (h : world.Grants)
    (hroot : world.disk.find true catalog.root = .ok (.at top .directory))
    (hparse : Glob.parse text = .ok glob) {found : List (List String)}
    (hf : world.disk.files catalog.root = .ok found) :
    (world.run (catalog.list (.glob text)).attempt).1 = .ok (catalog.pick glob found) := by
  have hpresent : world.disk.present catalog.root = true := by
    rw [Disk.present, Disk.entryAt, hroot]
    rfl
  obtain ⟨asked, hrun, hdisk, hgrants⟩ := h.run_ensurePresent_of_present hpresent
  have hreply : (asked.reply (.files catalog.root)).1 = .ok found := by
    rw [(hgrants.reply_eq _).1]
    show asked.disk.files catalog.root = .ok found
    rw [hdisk, hf]
  have hfound : Catalog.candidates world catalog.root text = .ok (glob, found) := by
    unfold Catalog.candidates
    rw [hrun, hparse]
    dsimp only [bind, Except.bind]
    rw [hreply]
    rfl
  rw [Catalog.run_list_glob, hfound]
  rfl

theorem Catalog.listed_glob (hroot : disk.find true catalog.root = .ok (.at top .directory))
    (hparse : Glob.parse text = .ok glob) {found : List (List String)}
    (hf : disk.files catalog.root = .ok found) :
    catalog.listed disk (.glob text) = .ok (catalog.pick glob found) := by
  have hgrants : FallibleHost.Grants { host := { disk } } := fun _ _ => rfl
  exact hgrants.run_listGlob hroot hparse hf

/-! ### Where listed files are -/

namespace Disk

variable {root : Path} {top place : Place} {names rest : List String} {name : String}
  {data : ByteArray}

/-- A file below a root is where its path leads. -/
theorem destination_of_file (hrooted : disk.Rooted)
    (hroot : disk.find true root = .ok (.at top .directory))
    (hfile : disk.file? (top ++ names) = some data) (hnames : ∀ name ∈ names, IsLabel name) :
    disk.destination (root.under ⟨"/".intercalate names⟩) = some (top ++ names) := by
  have hrelative := Path.isAbsolute_intercalate hnames
  refine destination_below (destination_of_find hroot (by simp))
    (Path.isAbsolute_under root hrelative) ?_ hnames fun below hbelow _ => ?_
  · rw [Path.moves_under root hrelative, Path.moves_intercalate hnames]
  · -- a file is there, or a directory above it
    obtain ⟨more, rfl⟩ := hbelow
    rw [file?_eq_some_iff, ← List.append_assoc] at hfile
    by_cases hmore : more = []
    · rw [hmore, List.append_nil] at hfile
      rw [link?, hfile]
    · rw [link?, hrooted.directory hfile hmore]

/-- What lies below a directory of a certain name is hidden from above, unless the directory
is above all. -/
theorem mem_dropLast_of_below (h : top ++ names = place ++ [name] ++ rest) (hrest : rest ≠ [])
    (habove : ¬ place ++ [name] <+: top) : name ∈ names.dropLast := by
  rcases List.append_eq_append_iff.1 h with ⟨middle, hmiddle, rfl⟩ | ⟨middle, rfl, -⟩
  · rcases List.eq_nil_or_concat middle with rfl | ⟨front, last, rfl⟩
    · rw [List.append_nil] at hmiddle
      exact absurd (hmiddle ▸ List.prefix_rfl) habove
    · rw [List.concat_eq_append, ← List.append_assoc] at hmiddle
      obtain ⟨-, hlast⟩ := List.append_inj' hmiddle rfl
      obtain rfl : name = last := by simpa using hlast
      rw [List.dropLast_append_of_ne_nil hrest]
      simp
  · exact absurd (List.prefix_append _ _) habove

end Disk

/-- A file that a glob lists is at no place below the directory that is not entered. -/
theorem Catalog.not_below_backups {place : Place} {rest : List String} {name : String}
    (hname : backups.fileName? = some name) (habove : ¬ place ++ [name] <+: top) (hrest : rest ≠ [])
    (hhides : (catalog.skippingBackups backups).hides names = false) :
    top ++ names ≠ place ++ [name] ++ rest := by
  intro he
  refine hides_eq_false_iff.1 hhides name (Disk.mem_dropLast_of_below he hrest habove) ?_
  exact (mem_skipped_skippingBackups_iff hname).2 (Or.inr rfl)

/-- What a glob lists lies below the root, by names that are not hidden. -/
theorem Catalog.exists_names (htree : world.disk.IsTree)
    (hroot : world.disk.find true catalog.root = .ok (.at top .directory))
    (h : world.run (catalog.listGlob text).attempt = (.ok files, later))
    (hf : file ∈ files.toList) :
    ∃ names data, file = "/".intercalate names ∧ world.disk.file? (top ++ names) = some data ∧
      catalog.hides names = false ∧ ∀ name ∈ names, IsLabel name := by
  obtain ⟨glob, found, -, hfound, rfl⟩ := Catalog.run_listGlob h
  obtain ⟨names, hnames, rfl⟩ := List.mem_map.1 (List.mem_filter.1 (Names.mem_ofList.1 hf)).1
  obtain ⟨hmem, hhides⟩ := List.mem_filter.1 hnames
  obtain ⟨data, hfile⟩ := (Disk.mem_files_iff htree.once hroot hfound).1 hmem
  exact ⟨names, data, rfl, hfile, by simpa using hhides,
    isLabel_of_files htree.once htree.named hfound hmem⟩

/-- A glob lists no absolute path. -/
theorem Catalog.isAbsolute_of_listGlob (htree : world.disk.IsTree)
    (h : world.run (catalog.listGlob text).attempt = (.ok files, later))
    (hf : file ∈ files.toList) :
    Path.isAbsolute ⟨file⟩ = false := by
  obtain ⟨glob, found, -, hfound, rfl⟩ := Catalog.run_listGlob h
  obtain ⟨names, hnames, rfl⟩ := List.mem_map.1 (List.mem_filter.1 (Names.mem_ofList.1 hf)).1
  exact Path.isAbsolute_intercalate
    (isLabel_of_files htree.once htree.named hfound (List.mem_filter.1 hnames).1)

end StyleTokens

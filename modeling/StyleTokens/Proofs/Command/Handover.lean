/-
Handing the report of a scan on.

A scan tells where its report is, so that a run can take its files from there.  A path that is
given as a source is seen from the root, and the path that a scan tells is seen from the
working directory: only where that makes no difference is the report found again.

* `Disk.find_under_here` — below the path of the working directory is what is seen from it;
* `ScanOptions.search`, `ScanOptions.filed` — a scan without what it tells;
* `ScanOptions.run_perform` — the command in its parts;
* `ProjectOptions.Anchored` — where both ways of seeing a path are one;
* `ScanOptions.report_found` — there the report is found again;
* `Sample.report_missed` — elsewhere it is not.

Design notes: the text of the root comes in front of a relative source, and a path that has
just been short enough for the disk can be too long then.
-/
import StyleTokens.Proofs.Command.Reports

namespace StyleTokens

open StyleTokens.Path (IsIdle IsLabel)

/-! ### Paths seen from the working directory -/

namespace Path

variable {base path : Path}

/-- What is joined to a path from the top is one. -/
theorem isAbsolute_join (h : base.isAbsolute = true) (path : Path) :
    (base.join path).isAbsolute = true := by
  obtain ⟨rest, htext⟩ : ∃ rest, base.text.toList = '/' :: rest :=
    List.head?_eq_some_iff.1 (beq_iff_eq.1 h)
  rw [join]
  split
  · assumption
  · split <;> simp [isAbsolute, htext]

end Path

namespace Disk

variable {disk : Disk} {followLast : Bool} {links : Nat} {place : Place} {path : Path}
  {front rest names : List String} {found : Found}

/-- A working directory that is there, under names that a disk takes. -/
structure Settled (disk : Disk) : Prop where
  solid : disk.Solid disk.here
  label : ∀ name ∈ disk.here, IsLabel name
  short : ∀ name ∈ disk.here, name.utf8ByteSize ≤ nameLimit

theorem Settled.isName (h : disk.Settled) {name : String} (hn : name ∈ disk.here) : IsName name :=
  ⟨(h.label name hn).not_idle, (h.label name hn).ne_up, h.short name hn⟩

/-- A walk may begin further up, with the names of the directories that it enters first. -/
theorem Walk.from_above (hnames : (front.filter fun piece => ¬ IsIdle piece) = names)
    (hname : ∀ name ∈ names, IsName name) (hs : disk.Solid (place ++ names))
    (h : disk.Walk followLast links (place ++ names) rest found) :
    disk.Walk followLast links place (front ++ rest) found := by
  induction front generalizing place names with
  | nil =>
    obtain rfl : [] = names := hnames
    simpa using h
  | cons piece front ih =>
    by_cases hi : IsIdle piece
    · rw [List.filter_cons_of_neg (by simpa using hi)] at hnames
      exact .idle hi (ih hnames hname hs h)
    · rw [List.filter_cons_of_pos (by simpa using hi)] at hnames
      subst hnames
      have hnext := List.append_cons place piece (front.filter fun piece => ¬ IsIdle piece)
      rw [hnext] at hs h
      refine .enter (hname _ List.mem_cons_self) (hs _ (List.prefix_append _ _)) ?_
      exact ih rfl (fun name hn => hname name (List.mem_cons_of_mem _ hn)) hs h

/-- The path of a place leads along its names. -/
theorem moves_path (h : ∀ name ∈ place, IsLabel name) : Path.moves (Place.path place) = place := by
  have htext : (Place.path place).text.toList = '/' :: ("/".intercalate place).toList := by
    rw [Place.path, String.toList_append]
    rfl
  rw [Path.moves_of_text htext, Path.pieces, if_pos rfl, List.map_cons,
    List.filter_cons_of_neg (by simp [IsIdle])]
  exact Path.moves_intercalate h

/-- **Below the path of the working directory is what is seen from it.** -/
theorem find_under_here (hs : disk.Settled) (hpath : path.isAbsolute = false)
    (ha : Accepts ((Place.path disk.here).under path)) (h : disk.find followLast path = .ok found) :
    disk.find followLast ((Place.path disk.here).under path) = .ok found := by
  have habs : ((Place.path disk.here).under path).isAbsolute = true := by
    rw [Path.isAbsolute_under _ hpath, Path.isAbsolute, Place.path, String.toList_append]
    rfl
  obtain ⟨-, hwalk⟩ := find_eq_ok_iff.1 h
  rw [Path.origin, if_neg (by simp [hpath])] at hwalk
  obtain ⟨front, hfront, hmoves⟩ := Path.stretches_under (Place.path disk.here) hpath
  refine find_eq_ok_iff.2 ⟨ha, ?_⟩
  rw [Path.origin, if_pos habs, hfront]
  exact Walk.from_above (hmoves.trans (moves_path hs.label)) (fun name hn => hs.isName hn)
    hs.solid hwalk

theorem canonical_eq_ok_iff {root : Path} : disk.canonical path = .ok root ↔
    ∃ place entry, disk.find true path = .ok (.at place entry) ∧ place.path = root := by
  rw [canonical]
  cases disk.find true path with
  | error cause => simp [bind, Except.bind]
  | ok found =>
    cases found <;> simp [bind, Except.bind, pure, Except.pure, throw, throwThe, MonadExceptOf.throw]

theorem isAbsolute_of_canonical {root : Path} (h : disk.canonical path = .ok root) :
    root.isAbsolute = true := by
  obtain ⟨place, entry, -, rfl⟩ := canonical_eq_ok_iff.1 h
  rw [Path.isAbsolute, Place.path, String.toList_append]
  rfl

/-- What comes to a disk leaves the paths without links and dots as they are. -/
theorem Gains.canonical {later : Disk} {root : Path} (h : disk.Gains later)
    (hroot : disk.canonical path = .ok root) : later.canonical path = .ok root := by
  obtain ⟨place, entry, hf, hplace⟩ := canonical_eq_ok_iff.1 hroot
  exact canonical_eq_ok_iff.2 ⟨place, entry, h.find hf, hplace⟩

theorem Gains.settled {later : Disk} (h : disk.Gains later) (hs : disk.Settled) :
    later.Settled where
  solid := h.toDevelops.solid_here hs.solid
  label := by
    rw [h.here]
    exact hs.label
  short := by
    rw [h.here]
    exact hs.short

end Disk

/-! ### The command in its parts -/

/-- Scripts come one after another, in whatever brackets. -/
instance : LawfulMonad Script := LawfulMonad.mk' Script
  (fun script => by
    induction script with
    | done value => rfl
    | ask request next ih => exact congrArg _ (funext ih))
  (fun _ _ => rfl)
  (fun script second third => by
    induction script with
    | done value => rfl
    | ask request next ih => exact congrArg _ (funext ih))

variable {world : FallibleHost}

/-- What a scan finds when it has its configuration, and the path that its report is filed at. -/
def ScanOptions.searchWith (options : ScanOptions) (setup : Setup) :
    Action (IssueReport × Path) := do
  let ruleSet ← (setup.ruleSet options.ruleSet : Except Fault _)
  let root ← options.project.resolveRoot
  let catalog := Catalog.skippingBackups { root } (options.project.resolveBackupDir root)
  let files ← catalog.list (options.source.source setup)
  let report ← (scan ruleSet (setup.exclusion options.project.exclude) root files : Script _)
  let path ← (ReportStore.mk (options.project.resolveOutDir root)).file report.fileName
    report.toJson
  return (report, path)

/-- What a scan finds, and the path that its report is filed at. -/
def ScanOptions.search (options : ScanOptions) : Action (IssueReport × Path) := do
  options.searchWith (← Setup.load options.project.config)

/-- All that a scan tells: its report and the path of it. -/
def IssueReport.announce (report : IssueReport) (console : Console) (path : Path) :
    Script Unit := do
  report.tell console path
  console.summary (report.members console path)

theorem IssueReport.announce_obeys (report : IssueReport) (console : Console) (path : Path) :
    (report.announce console path).Obeys Request.Reads fun _ => True :=
  .bind (report.tell_obeys console path) fun _ _ => console.summary_obeys _

namespace ScanOptions

variable {options : ScanOptions} {report : IssueReport} {path : Path}

/-- A scan looks, and tells what it has found. -/
theorem perform_eq (options : ScanOptions) : options.perform = (do
    let console ← (Console.detect : Script _)
    let found ← options.search
    (found.1.announce console found.2 : Script _)) := by
  simp only [perform, search, searchWith, IssueReport.announce, bind_assoc, pure_bind, liftM_bind]

/-- What a scan has found and filed, or why it has not, and the world after it. -/
def filed (options : ScanOptions) (world : FallibleHost) :
    Except Fault (IssueReport × Path) × FallibleHost :=
  (world.run Console.detect).2.run options.search.attempt

/-- **The command in its parts**: it fails as its search does, and tells what this has found. -/
theorem run_perform (options : ScanOptions) (world : FallibleHost) :
    world.run options.perform.attempt =
      match options.filed world with
      | (.error fault, after) => (.error fault, after)
      | (.ok (report, path), after) =>
        (.ok (), (after.run (report.announce (world.run Console.detect).1 path)).2) := by
  rw [perform_eq, FallibleHost.run_action_bind, FallibleHost.run_action_lift]
  dsimp only
  rw [FallibleHost.run_action_bind, ← filed]
  rcases options.filed world with ⟨fault | ⟨report, path⟩, after⟩
  · rfl
  · exact FallibleHost.run_action_lift _ _

/-- A search that succeeds has filed its report last, in the directory of the reports. -/
theorem run_search_ok {after : FallibleHost}
    (h : world.run options.search.attempt = (.ok (report, path), after)) :
    ∃ (root : Path) (scanned : FallibleHost),
      world.disk.canonical options.project.root = .ok root ∧ scanned.disk = world.disk ∧
      scanned.run ((ReportStore.mk (options.project.resolveOutDir root)).file report.fileName
        report.toJson).attempt = (.ok path, after) := by
  unfold search searchWith at h
  obtain ⟨setup, loaded, hload, h⟩ := FallibleHost.run_action_bind_ok h
  have hloaded : loaded.disk = world.disk := (Setup.load_obeys _).disk_of_run hload
  obtain ⟨set, chosen, hchosen, h⟩ := FallibleHost.run_action_bind_ok h
  rw [FallibleHost.run_action_ofExcept] at hchosen
  obtain rfl : loaded = chosen := congrArg Prod.snd hchosen
  obtain ⟨root, found, hroot, h⟩ := FallibleHost.run_action_bind_ok h
  have hfound : found.disk = loaded.disk := options.project.resolveRoot_obeys.disk_of_run hroot
  obtain ⟨files, listed, hlist, h⟩ := FallibleHost.run_action_bind_ok h
  have hlisted : listed.disk = found.disk := (Catalog.list_obeys _ _).disk_of_run hlist
  obtain ⟨other, scanned, hscan, h⟩ := FallibleHost.run_action_bind_ok h
  rw [FallibleHost.run_action_lift] at hscan
  have hscanned : scanned.disk = listed.disk :=
    (scan_obeys set (setup.exclusion options.project.exclude) root files).disk_of_run
      (Prod.ext rfl (Prod.mk.inj hscan).2)
  obtain ⟨place, filed, hfile, h⟩ := FallibleHost.run_action_bind_ok h
  cases h
  refine ⟨root, scanned, ?_, by rw [hscanned, hlisted, hfound, hloaded], hfile⟩
  rw [← hloaded]
  exact ProjectOptions.run_resolveRoot hroot

/-- A scan that succeeds has left its report at the path that it tells, and has taken nothing
away. -/
theorem filed_ok (h : (options.filed world).1 = .ok (report, path)) :
    ∃ root, world.disk.canonical options.project.root = .ok root ∧
      (ReportStore.mk (options.project.resolveOutDir root)).NamePath report.fileName path ∧
      world.disk.Gains (options.filed world).2.disk ∧
      (options.filed world).2.disk.read path = .ok (report.toJson.pretty ++ "\n").toUTF8 := by
  obtain ⟨root, scanned, hroot, hscanned, hfile⟩ := run_search_ok (Prod.ext h rfl)
  rw [Console.detect_obeys.disk_run world] at hroot hscanned
  have hname := @Script.Obeys.result _ _ _ _ scanned (ReportStore.file_creates
    ⟨options.project.resolveOutDir root⟩ report.fileName report.toJson)
  have hadds := (ReportStore.file_obeys ⟨options.project.resolveOutDir root⟩ report.fileName
    report.toJson).gains scanned
  have hnew := (ReportStore.mk (options.project.resolveOutDir root)).run_file report.fileName
    report.toJson scanned
  rw [hfile] at hname hadds hnew
  rw [hscanned] at hadds
  refine ⟨root, hroot, hname, hadds, ?_⟩
  cases hnew with
  | new read _ _ => exact read

/-- So it does when it has told what it has found. -/
theorem run_perform_ok (h : (options.filed world).1 = .ok (report, path)) :
    world.run options.perform.attempt = (.ok (), ((options.filed world).2.run
      (report.announce (world.run Console.detect).1 path)).2) := by
  rw [run_perform]
  generalize options.filed world = filed at h
  obtain ⟨result, after⟩ := filed
  obtain rfl : result = .ok (report, path) := h
  rfl

theorem disk_perform_ok (h : (options.filed world).1 = .ok (report, path)) :
    (world.run options.perform.attempt).2.disk = (options.filed world).2.disk := by
  rw [run_perform_ok h]
  exact (report.announce_obeys _ path).disk_run _

end ScanOptions

/-! ### Handing the report on -/

/-- Reports are where they are seen from the root just as from the working directory: there is
no relative path to their directory, or the root is the working directory. -/
def ProjectOptions.Anchored (options : ProjectOptions) (disk : Disk) : Prop :=
  ∀ directory, options.outDir = some directory → directory.isAbsolute = true ∨
    disk.canonical options.root = .ok disk.here.path

/-- Then only the root that is the working directory has reports at relative paths. -/
theorem ProjectOptions.Anchored.root_eq {options : ProjectOptions} {disk : Disk} {root path : Path}
    {name : String} (h : options.Anchored disk) (hroot : disk.canonical options.root = .ok root)
    (hpath : (ReportStore.mk (options.resolveOutDir root)).NamePath name path)
    (habs : path.isAbsolute = false) : disk.here.path = root := by
  obtain ⟨attempt, rfl⟩ := hpath
  have hdirectory : (options.resolveOutDir root).isAbsolute ≠ true := fun habsolute =>
    Bool.false_ne_true (habs.symm.trans (Path.isAbsolute_join habsolute _))
  rw [resolveOutDir] at hdirectory
  cases hgiven : options.outDir with
  | none =>
    rw [hgiven] at hdirectory
    exact absurd (Disk.isAbsolute_of_canonical hroot) hdirectory
  | some directory =>
    rw [hgiven] at hdirectory
    rcases h directory hgiven with habsolute | hhere
    · exact absurd habsolute hdirectory
    · exact Except.ok.inj (hhere.symm.trans hroot)

namespace ScanOptions

variable {options : ScanOptions} {report : IssueReport} {path : Path}

/-- **The report of a scan is found again** by the path that the scan tells, when this path is
given as the source of another command with the same root: seen from the root, it leads to the
very file in which the report was filed.  This holds with the default directory of the reports,
with one from the top, and with a relative one if the root is the working directory; and it goes
on to hold while nothing is taken away from the disk. -/
theorem report_found (hs : world.disk.Settled) (hanchored : options.project.Anchored world.disk)
    (hfiled : (options.filed world).1 = .ok (report, path))
    (haccepts : path.isAbsolute = false → Disk.Accepts (world.disk.here.path.under path)) :
    let after := (world.run options.perform.attempt).2
    ∃ root, world.disk.canonical options.project.root = .ok root ∧
      world.run options.perform.attempt = (.ok (), ((options.filed world).2.run
        (report.announce (world.run Console.detect).1 path)).2) ∧
      ∀ later : FallibleHost, after.disk.Gains later.disk →
        later.disk.canonical options.project.root = .ok root ∧
        later.disk.find true (root.under path) = later.disk.find true path ∧
        later.disk.read (root.under path) = .ok (report.toJson.pretty ++ "\n").toUTF8 ∧
        ∀ catalog : Catalog, catalog.root = root → later.Grants →
          (later.run (catalog.list (.report path)).attempt).1 = do
            let listed ← (← Catalog.written (root.under path)
              (report.toJson.pretty ++ "\n")).mapM catalog.entryPath
            return .ofList listed := by
  intro after
  obtain ⟨root, hroot, hname, hadds, hfile⟩ := filed_ok hfiled
  refine ⟨root, hroot, run_perform_ok hfiled, fun later hlater => ?_⟩
  rw [disk_perform_ok hfiled] at hlater
  have hgains := hadds.trans hlater
  have hread := hlater.read hfile
  have hfind : later.disk.find true (root.under path) = later.disk.find true path := by
    cases habs : path.isAbsolute with
    | true => rw [Path.under, if_pos habs]
    | false =>
      obtain rfl := hanchored.root_eq hroot hname habs
      obtain ⟨place, entry, hf, -⟩ := Disk.read_eq_ok_iff.1 hread
      rw [hf, ← hgains.here]
      refine Disk.find_under_here (hgains.settled hs) habs ?_ hf
      rw [hgains.here]
      exact haccepts habs
  have hunder : later.disk.read (root.under path) =
      .ok (report.toJson.pretty ++ "\n").toUTF8 := by
    obtain ⟨place, entry, hf, hentry⟩ := Disk.read_eq_ok_iff.1 hread
    exact Disk.read_eq_ok_iff.2 ⟨place, entry, hfind.trans hf, hentry⟩
  refine ⟨hgains.canonical hroot, hfind, hunder, ?_⟩
  rintro catalog rfl hgrants
  have hsteady : later.Steady := fun n request => (hgrants n request).trans (hgrants 0 request).symm
  exact hsteady.run_list_report hunder (hgrants _ _) (hgrants _ _)

end ScanOptions

/-! ### Reports below the working directory -/

/-- A search that has its configuration goes on with it. -/
theorem ScanOptions.filed_of_load {options : ScanOptions} {loaded : FallibleHost}
    {result : Except Fault Setup}
    (hload : (world.run Console.detect).2.run (Setup.load options.project.config).attempt =
      (result, loaded)) :
    options.filed world =
      loaded.run (liftM result >>= options.searchWith : Action (IssueReport × Path)).attempt := by
  rw [filed, search, FallibleHost.run_action_bind, hload]
  cases result <;> rfl

/-- A run whose plan is refused is refused. -/
theorem RunOptions.run_perform_refused {options : RunOptions} {fault : Fault}
    (h : (options.planned world).1 = .error fault) :
    (world.run options.perform.attempt).1 = .error fault := by
  rcases options.run_perform world with ⟨other, hother, hrun⟩ | ⟨plan, hplan, -⟩
  · rw [hrun]
    exact congrArg Except.error (Except.error.inj (hother.symm.trans h))
  · rw [h] at hplan
    cases hplan

namespace Sample

/-- The path of the report of a scan whose reports go to a relative path. -/
def handedPath : Path := ⟨"out/f-issue-report.json"⟩

/-- The report of a scan that has filed it there. -/
def handedAt : Except Fault (IssueReport × Path) → Bool
  | .ok (_, path) => path = handedPath
  | .error _ => false

theorem exists_of_handedAt {filed : Except Fault (IssueReport × Path)}
    (h : handedAt filed = true) : ∃ report, filed = .ok (report, handedPath) := by
  rcases filed with fault | ⟨report, path⟩
  · cases h
  · exact ⟨report, by rw [of_decide_eq_true h]⟩

/-- A scan of the small project from its own directory, with reports at a relative path. -/
def scanHere : ScanOptions where
  ruleSet := "f"
  project := { root := ⟨"/p"⟩, outDir := some ⟨"out"⟩, config := some ⟨"/c"⟩ }

/-- **The report of a scan from the root is found again**: by its relative path, the root and the
working directory lead to the same file. -/
theorem report_handed_on : ∃ report,
    (scanHere.filed (namedWorld "f")).1 = .ok (report, handedPath) ∧
    let after := ((namedWorld "f").run scanHere.perform.attempt).2
    after.disk.find true ((Path.mk "/p").under handedPath) = after.disk.find true handedPath ∧
    after.disk.read ((Path.mk "/p").under handedPath) =
      .ok (report.toJson.pretty ++ "\n").toUTF8 := by
  have hgrants : (namedWorld "f").Grants := grants_configured _ _
  have hconfig : scanHere.project.config = some ⟨"/c"⟩ := rfl
  have hhanded : handedAt (scanHere.filed (namedWorld "f")).1 = true := by
    rw [ScanOptions.filed_of_load (load_named hgrants (read_configured _ _) hconfig)]
    decide +kernel
  obtain ⟨report, hfiled⟩ := exists_of_handedAt hhanded
  have hsettled : (namedWorld "f").disk.Settled := {
    solid := Disk.solid_singleton rfl
    label := List.forall_mem_singleton.2 ⟨by decide, by decide, by decide⟩
    short := List.forall_mem_singleton.2 (by decide) }
  obtain ⟨root, hroot, -, hfound⟩ := ScanOptions.report_found hsettled
    (fun _ _ => Or.inr rfl) hfiled fun _ => ⟨by decide, by decide, by decide⟩
  obtain rfl : (Path.mk "/p") = root := Except.ok.inj hroot
  obtain ⟨-, hfind, hread, -⟩ := hfound _ (.refl _)
  exact ⟨report, hfiled, hfind, hread⟩

/-- A directory with a project in it. -/
def nested : FallibleHost :=
  configured "f" [(["p"], .directory), (["p", "web"], .directory),
    (["p", "web", "a.css"], .file "4".toUTF8)]

/-- A scan of that project from outside of it, with reports at a relative path. -/
def scanBelow : ScanOptions where
  ruleSet := "f"
  project := { root := ⟨"web"⟩, outDir := some ⟨"out"⟩, config := some ⟨"/c"⟩ }

/-- A run with the report of that scan as its source. -/
def runBelow : RunOptions where
  ruleSet := "f"
  source := { report := some handedPath }
  project := scanBelow.project

/-- The path that is missing, if a plan is refused for that. -/
def missingOf : Except Fault RunPlan → Option String
  | .error (.missingPath path) => some path
  | _ => none

theorem eq_of_missingOf {planned : Except Fault RunPlan} {path : String}
    (h : missingOf planned = some path) : planned = .error (.missingPath path) := by
  unfold missingOf at h
  split at h
  · rw [Option.some.inj h]
  · cases h

/-- **From outside of the root the report is not found again**: the scan has filed it and told
where, and a run with this path as its source misses another one, below the root. -/
theorem report_missed : ∃ report,
    (scanBelow.filed nested).1 = .ok (report, handedPath) ∧
    (nested.run scanBelow.perform.attempt).1 = .ok () ∧
    let later := (nested.run scanBelow.perform.attempt).2
    later.disk.read handedPath = .ok (report.toJson.pretty ++ "\n").toUTF8 ∧
    (later.run runBelow.perform.attempt).1 =
      .error (.missingPath "/p/web/out/f-issue-report.json") := by
  have hgrants : nested.Grants := grants_configured _ _
  have hread : nested.disk.read ⟨"/c"⟩ = .ok (named "f").toJson.compact.toUTF8 :=
    read_configured _ _
  have hconfig : scanBelow.project.config = some ⟨"/c"⟩ := rfl
  have hload := load_named hgrants hread hconfig
  have hhanded : handedAt (scanBelow.filed nested).1 = true := by
    rw [ScanOptions.filed_of_load hload]
    decide +kernel
  obtain ⟨report, hfiled⟩ := exists_of_handedAt hhanded
  obtain ⟨root, -, -, hadds, hfile⟩ := ScanOptions.filed_ok hfiled
  have hrun := ScanOptions.run_perform_ok hfiled
  have hdisk := ScanOptions.disk_perform_ok hfiled
  have hlater := (congrArg (Disk.read · ⟨"/c"⟩) hdisk).trans (hadds.read hread)
  have hmissing : missingOf (runBelow.planned (nested.run scanBelow.perform.attempt).2).1 =
      some "/p/web/out/f-issue-report.json" := by
    have hsize : runBelow.batchSize ≠ 0 := Nat.succ_ne_zero 19
    have hsame : runBelow.project.config = some ⟨"/c"⟩ := rfl
    rw [RunOptions.planned_of_load hsize (load_named (hgrants.run _) hlater hsame),
      ScanOptions.run_perform, ScanOptions.filed_of_load hload]
    decide +kernel
  exact ⟨report, hfiled, congrArg Prod.fst hrun,
    (congrArg (Disk.read · handedPath) hdisk).trans hfile,
    RunOptions.run_perform_refused (eq_of_missingOf hmissing)⟩

end Sample

end StyleTokens

/-
Where the reports of a command come to be.

The name of a rule set stands at the beginning of the names of its reports.  Nothing is said of
it when a configuration is checked, and a name with a slash in it leads a report elsewhere, or
to a directory that is not there.  Without a slash all reports are in their directory.

* `Request.CreatesAt` — requests that create files at certain paths only;
* `ReportStore.file_creates`, `Batch.run_creates` — reports are created under their names, and
  nothing else is created;
* `ReportStore.exists_label` — a name without a slash has its paths in the directory;
* `ReportStore.Fits`, `run_file_of_fits` — a report is filed where a disk takes its names and
  one of them is free;
* `ProjectOptions.ReportPath` — a path in the directory of the reports;
* `reports_stay` — where the reports of runs and scans come to be, and that none is lost;
* `Sample.report_lost` — what becomes of them when there is a slash in the name.
-/
import StyleTokens.Proofs.Command.Interleaving
import StyleTokens.Proofs.Command.Relisting
import StyleTokens.Proofs.Configuration.Soundness
import StyleTokens.Proofs.Disk.Admission
import StyleTokens.Proofs.Scan.WorkList

namespace StyleTokens

open StyleTokens.Path (IsIdle IsLabel)

variable {α : Type} {world : FallibleHost} {path base : Path} {paths : Path → Prop}

/-- Whether a request creates a file at certain paths only, if it creates one. -/
def Request.CreatesAt (paths : Path → Prop) : Request → Prop
  | .create path _ => paths path
  | _ => True

theorem Request.Reads.createsAt {request : Request} (h : request.Reads) :
    request.CreatesAt paths := by
  cases request with
  | create path data => exact h.elim
  | _ => trivial

/-! ### Names in a directory -/

/-- A number has no slash. -/
theorem Text.slash_not_mem_toDigits (n : Nat) : '/' ∉ Nat.toDigits 10 n :=
  fun h => absurd (Nat.isDigit_of_mem_toDigits (by decide) (by decide) h) (by decide)

/-- A text without a slash is a label when the ending of reports is put behind it. -/
theorem Path.isLabel_json {front : String} (h : '/' ∉ front.toList) :
    IsLabel (front ++ ".json") := by
  have hlong : 5 ≤ (front ++ ".json").toList.length := by simp
  have hother : ∀ other : String, other.toList.length < 5 → front ++ ".json" ≠ other := by
    rintro other hshort rfl
    omega
  refine ⟨?_, hother _ (by decide), by simp [h]⟩
  rintro (he | he)
  · exact hother _ (by decide) he
  · exact hother _ (by decide) he

namespace Disk

variable {disk : Disk} {links : Nat} {place top : Place} {pieces : List String} {label : String}

/-- A walk that ends at a directory is a way. -/
theorem Walk.passes (h : disk.Walk true links place pieces (.at top .directory)) :
    ∃ left, disk.Passes false links place pieces left top := by
  generalize hf : Found.at top .directory = found at h
  induction h with
  | arrive _ =>
    cases hf
    exact ⟨_, .here⟩
  | idle hi _ ih => exact (ih hf).imp fun _ hnext => .idle hi hnext
  | up _ ih => exact (ih hf).imp fun _ hnext => .up hnext
  | missing _ _ => cases hf
  | enter hn he _ ih => exact (ih hf).imp fun _ hnext => .enter hn he hnext
  | leaf _ _ hdir _ =>
    cases hf
    exact absurd rfl hdir
  | lastLink _ _ _ => cases hf
  | turn hn he _ _ ih =>
    obtain ⟨left, hall⟩ := ih hf
    obtain ⟨middle, between, hthere, hrest⟩ := hall.split
    exact ⟨left, .turn hn he hthere hrest⟩

/-- **In a directory that is there, something has a name or nothing has it.** -/
theorem occupied_or_vacant (hdir : disk.isDirectory base = true) (hlabel : IsLabel label)
    (hshort : label.utf8ByteSize ≤ nameLimit) (ha : Accepts (base.child label)) :
    disk.Occupied (base.child label) ∨ disk.Vacant (base.child label) := by
  have hname : IsName label := ⟨hlabel.not_idle, hlabel.ne_up, hshort⟩
  obtain ⟨top, hfind⟩ := isDirectory_iff.1 hdir
  obtain ⟨left, hway⟩ := (find_eq_ok_iff.1 hfind).2.passes
  -- the pieces of the base are those in front of the label, but for idle ones
  obtain ⟨front, hfront, hmoves⟩ := Path.stretches_under base hlabel.isAbsolute
  rw [← Passes.filter_iff, show base.stretches.filter _ = base.moves from rfl, ← hmoves,
    Passes.filter_iff, ← origin_congr (Path.isAbsolute_child base hlabel)] at hway
  have hfound : ∀ found, disk.Walk false left top [label] found →
      disk.find false (base.child label) = .ok found := by
    intro found hlast
    refine find_eq_ok_iff.2 ⟨ha, ?_⟩
    rw [show (base.child label).stretches = front ++ [label] by
      rw [Path.child_eq_under base hlabel, hfront, hlabel.stretches]]
    exact hway.walk hlast (by simp)
  cases he : disk.entry? (top ++ [label]) with
  | none => exact Or.inr ⟨_, _, hfound _ (.missing hname he)⟩
  | some entry =>
    refine Or.inl ⟨top ++ [label], entry, hfound (.at (top ++ [label]) entry) ?_⟩
    cases entry with
    | directory => exact .enter hname he (.arrive he)
    | link target => exact .lastLink rfl hname he
    | file data => exact .leaf hname he (by simp) (by simp)
    | device device => exact .leaf hname he (by simp) (by simp)

/-- A directory that is there is not made again. -/
theorem makeDirectories_of_isDirectory (hs : disk.Solid disk.here)
    (h : disk.isDirectory base = true) : disk.makeDirectories base = (.ok (), disk) := by
  obtain ⟨found, hfound⟩ := find_withoutSlashes_of_isDirectory hs h
  have hmake : disk.makeDirectory base = disk.add found .directory := by
    rw [makeDirectory, hfound]
    rfl
  rw [makeDirectories, makeDirectoriesFrom, hmake]
  split
  · rfl
  cases found with
  | absent parent name =>
    -- what is found without the slashes is at the same place
    obtain ⟨top, htop⟩ := isDirectory_iff.1 h
    have hsame := destination_withoutSlashes disk base
    rw [destination_of_find hfound (by simp), destination_of_find htop (by simp)] at hsame
    obtain rfl : parent ++ [name] = top := Option.some.inj hsame
    have hat := (find_eq_ok_iff.1 htop).2.entry?_at
    rw [(find_eq_ok_iff.1 hfound).2.entry?_absent] at hat
    cases hat
  | «at» place entry =>
    show makeDirectoriesFrom.settle base disk (.error .alreadyExists) = _
    rw [makeDirectoriesFrom.settle, if_pos h]
    rfl

end Disk

/-! ### Filing -/

namespace ReportStore

variable {store : ReportStore} {name : String} {attempt : Nat} {data : ByteArray}

/-- A path under which a document of some name may be filed. -/
def NamePath (store : ReportStore) (name : String) (path : Path) : Prop :=
  ∃ attempt, path = store.place name attempt

/-- The name of a file at some attempt. -/
def label (name : String) (attempt : Nat) : String :=
  stem name ++ (if attempt = 1 then "" else "-" ++ toString attempt) ++ ".json"

theorem place_eq_child : store.place name attempt = store.directory.child (label name attempt) :=
  rfl

theorem isLabel_label (h : '/' ∉ name.toList) (attempt : Nat) : IsLabel (label name attempt) := by
  refine Path.isLabel_json ?_
  rw [String.toList_append, List.mem_append, not_or]
  constructor
  · rw [stem]
    split
    · rw [String.toList_ofList]
      exact fun hm => h (List.mem_of_mem_take hm)
    · exact h
  · split
    · decide
    · simp [Text.slash_not_mem_toDigits]

/-- **A name without a slash has its paths in the directory.** -/
theorem exists_label (h : '/' ∉ name.toList) (hpath : store.NamePath name path) :
    ∃ label, IsLabel label ∧ path = store.directory.child label := by
  obtain ⟨attempt, rfl⟩ := hpath
  exact ⟨label name attempt, isLabel_label h attempt, place_eq_child⟩

theorem fileFrom_creates (store : ReportStore) (name : String) (left attempt : Nat) :
    (store.fileFrom name data left attempt).Obeys (Request.CreatesAt (store.NamePath name))
      (store.NamePath name) fun _ => True := by
  induction left generalizing attempt with
  | zero => exact .throw trivial
  | succ left ih =>
    refine .bind (.lift (.request (.create _ _) ⟨attempt, rfl⟩)) fun reply _ => ?_
    split
    · exact .pure ⟨attempt, rfl⟩
    · exact ih _
    · exact .throw trivial

/-- **A document is created under its name**, and it is told where. -/
theorem file_creates (store : ReportStore) (name : String) (document : Json) :
    (store.file name document).Obeys (Request.CreatesAt (store.NamePath name))
      (store.NamePath name) fun _ => True :=
  .bind (.ofIo_any (.request (.makeDirectories _) trivial)) fun _ _ =>
    fileFrom_creates store name nameLimit 1

/-- So it is created at certain paths only, if its name has none but these. -/
theorem file_creates_at (document : Json) (h : ∀ path, store.NamePath name path → paths path) :
    (store.file name document).Obeys (Request.CreatesAt paths) (fun _ => True) fun _ => True := by
  refine (store.file_creates name document).mono (fun request hr => ?_) (fun _ _ => trivial)
    fun _ _ => trivial
  cases request with
  | create path data => exact h path hr
  | _ => trivial

/-- A name whose paths a disk takes: none of them is too long or holds a zero. -/
def Fits (store : ReportStore) (name : String) : Prop :=
  ∀ attempt, 1 ≤ attempt → attempt ≤ nameLimit →
    (label name attempt).utf8ByteSize ≤ Disk.nameLimit ∧ Disk.Accepts (store.place name attempt)

/-- **A document is filed** in a directory that is there, when its names have no slash, a disk
takes them, and one of them is free. -/
theorem run_file_of_fits (hgrants : world.Grants) (hs : world.disk.Solid world.disk.here)
    (hdir : world.disk.isDirectory store.directory = true) (hname : '/' ∉ name.toList)
    (hfits : store.Fits name) (document : Json)
    (hfree : ∃ attempt, 1 ≤ attempt ∧ attempt ≤ nameLimit ∧
      ¬ world.disk.Occupied (store.place name attempt)) :
    ∃ path, (world.run (store.file name document).attempt).1 = .ok path ∧
      store.NamePath name path := by
  classical
  -- the first attempt that does not find something
  obtain ⟨⟨hfirst, hlast, hmissing⟩, hleast⟩ := And.intro (Nat.find_spec hfree)
    fun (before : Nat) (hb : before < Nat.find hfree) => Nat.find_min hfree hb
  generalize Nat.find hfree = attempt at hfirst hlast hmissing hleast
  obtain ⟨hshort, ha⟩ := hfits attempt hfirst hlast
  have hvacant : world.disk.Vacant (store.place name attempt) :=
    (Disk.occupied_or_vacant hdir (isLabel_label hname attempt) hshort ha).resolve_left hmissing
  have hoccupied : ∀ before, 1 ≤ before → before < attempt →
      world.disk.Occupied (store.place name before) := by
    intro before hb hlt
    by_contra hno
    exact hleast before hlt ⟨hb, by omega, hno⟩
  -- the directory is not made again
  obtain ⟨hreply, hhost⟩ := hgrants.reply_eq (.makeDirectories store.directory)
  have hmade := Disk.makeDirectories_of_isDirectory hs hdir
  have hok : (world.host.reply (.makeDirectories store.directory)).1 = .ok () :=
    congrArg Prod.fst hmade
  have hsame : (world.reply (.makeDirectories store.directory)).2.disk = world.disk := by
    rw [FallibleHost.disk, hhost]
    exact congrArg Prod.snd hmade
  refine ⟨store.place name attempt, ?_, attempt, rfl⟩
  rw [file, FallibleHost.run_action_bind, Action.makeDirectories, FallibleHost.run_ofIo,
    FallibleHost.run_request, hreply, hok]
  exact run_fileFrom_of_first (hgrants.run (.request _)) hfirst (by omega) (hsame ▸ hvacant)
    (hsame ▸ hoccupied)

end ReportStore

/-- A batch creates no file; its report is that of its rule set. -/
theorem Batch.run_creates (batch : Batch) (files : Names) (window : Window) :
    (batch.run files window).Obeys (Request.CreatesAt paths)
      fun report => report.ruleSet = batch.ruleSet.name := by
  have hreads : ∀ request : Request, request.Reads → request.CreatesAt paths :=
    fun _ h => h.createsAt
  have hput : ∀ path, MayPut (Request.CreatesAt paths) path :=
    fun _ => ⟨fun _ => trivial, fun _ _ => trivial⟩
  have hprepare : ∀ files, (batch.prepareAll files).Obeys (Request.CreatesAt paths) fun _ => True :=
    fun files => (batch.prepareAll_obeys files).mono hreads fun _ _ => trivial
  have hprocess : ∀ files, (batch.process files).Obeys (Request.CreatesAt paths) fun _ => True := by
    intro files
    cases hdry : batch.dryRun with
    | true =>
      rw [process_eq_of_dry hdry]
      exact .bind (hprepare files) fun _ _ => .pure trivial
    | false =>
      rw [process_eq hdry]
      refine .bind (hprepare files) fun prepared _ => ?_
      refine .bind (secure_asks fun vault _ => ?_) fun secured _ =>
        .bind (commitAll_asks fun _ _ => trivial) fun _ _ => .pure trivial
      exact Script.Obeys.mono (Vault.snapshot_asks hreads (fun file _ => ⟨hput _, hput _⟩) (hput _))
        (fun _ h => h) fun _ _ => trivial
  have hverify : ∀ start stop, (batch.verify start stop).Obeys (Request.CreatesAt paths)
      fun _ => True := by
    intro start stop
    rcases batch.verify_cases start stop with ⟨-, reason, hv⟩ | ⟨gate, hgate, -⟩
    · rw [hv]
      exact .pure trivial
    · refine ((verify_asks hreads hgate ⟨trivial, trivial, trivial⟩).obeys hreads).mono
        (fun request h => ?_) fun _ h => h
      rcases h with rfl | h
      · trivial
      · exact h
  refine .bind (hprocess _) fun _ _ => .bind (hverify _ _) fun _ _ => ?_
  exact .ask trivial fun _ => .pure rfl

/-- The name of a report has a slash only if that of its rule set has one. -/
theorem BatchReport.slash_not_mem_fileName {report : BatchReport}
    (h : '/' ∉ report.ruleSet.toList) : '/' ∉ report.fileName.toList := by
  simp [fileName, h, Text.slash_not_mem_toDigits]

theorem IssueReport.slash_not_mem_fileName {report : IssueReport}
    (h : '/' ∉ report.ruleSet.toList) : '/' ∉ report.fileName.toList := by
  simp [fileName, h]

/-- What is told of a scan touches nothing. -/
theorem IssueReport.tell_obeys (report : IssueReport) (console : Console) (path : Path) :
    (report.tell console path).Obeys Request.Reads fun _ => True := by
  have hline : ∀ stream text, (console.line stream text).Obeys Request.Reads fun _ => True :=
    Console.line_obeys console
  refine .bind (hline _ _) fun _ _ => .bind (hline _ _) fun _ _ => .bind (hline _ _) fun _ _ => ?_
  split
  · exact .bind (hline _ _) fun _ _ => hline _ _
  · exact .bind (hline _ _) fun _ _ => hline _ _

/-! ### Commands -/

/-- What is asked for an action in two parts is asked for the first, or for the second when
the first has succeeded. -/
theorem FallibleHost.mem_log_action_bind {α β : Type} {action : Action α} {next : α → Action β}
    {exchange : Exchange} (h : exchange ∈ world.log (action >>= next).attempt) :
    exchange ∈ world.log action.attempt ∨
      ∃ value after, world.run action.attempt = (.ok value, after) ∧
        exchange ∈ after.log (next value).attempt := by
  rw [log_action_bind] at h
  refine (List.mem_append.1 h).imp_right fun h => ?_
  split at h
  · next value after hrun => exact ⟨value, after, hrun, h⟩
  · cases h

/-- What is asked for an action is what it may ask. -/
theorem Action.asks_of_log {α : Type} {may : Request → Prop} {action : Action α}
    {exchange : Exchange} (h : action.Obeys may (fun _ => True) fun _ => True)
    (he : exchange ∈ world.log action.attempt) : may exchange.1 :=
  Script.Obeys.log h he

/-- A rule set that is found has the name that was asked for. -/
theorem Setup.name_of_ruleSet {setup : Setup} {name : String} {set : RuleSet}
    (h : setup.ruleSet name = .ok set) : set.name = name := by
  rw [ruleSet] at h
  cases hfind : setup.ruleSets.find? (·.name == name) with
  | none =>
    rw [hfind] at h
    cases h
  | some found =>
    rw [hfind] at h
    obtain rfl : found = set := Except.ok.inj h
    simpa using List.find?_some hfind

/-- A path in the directory of the reports of a project. -/
def ProjectOptions.ReportPath (options : ProjectOptions) (disk : Disk) (path : Path) : Prop :=
  ∃ root label, disk.canonical options.root = .ok root ∧ IsLabel label ∧
    path = (options.resolveOutDir root).child label

/-- Names without a slash have their paths there. -/
theorem ProjectOptions.reportPath_of_namePath {options : ProjectOptions} {disk : Disk}
    {root : Path} {name : String} (hroot : disk.canonical options.root = .ok root)
    (hname : '/' ∉ name.toList)
    (hpath : (ReportStore.mk (options.resolveOutDir root)).NamePath name path) :
    options.ReportPath disk path := by
  obtain ⟨label, hlabel, rfl⟩ := ReportStore.exists_label hname hpath
  exact ⟨root, label, hroot, hlabel, rfl⟩

/-- Where a plan has its reports go, and for which rule set. -/
theorem RunOptions.run_plan_reports {options : RunOptions} {console : Console} {plan : RunPlan}
    {after : FallibleHost} (h : world.run (options.plan console).attempt = (.ok plan, after)) :
    ∃ root, world.disk.canonical options.project.root = .ok root ∧
      plan.outDir = options.project.resolveOutDir root ∧
      plan.batch.ruleSet.name = options.ruleSet := by
  obtain ⟨setup, ruleSet, root, gate, loaded, found, made, listed, hload, hset, hroot, -, -,
    hplan⟩ := run_plan_stages h
  have hloaded : loaded.disk = world.disk := (Setup.load_obeys _).disk_of_run hload
  rw [hplan, ← hloaded]
  exact ⟨root, ProjectOptions.run_resolveRoot hroot, rfl, Setup.name_of_ruleSet hset⟩

/-- What is asked by a command that first finds out about its console: that only reads. -/
theorem Console.mem_log_of_detect {next : Console → Action α} {exchange : Exchange}
    (h : exchange ∈ world.log ((liftM Console.detect : Action Console) >>= next).attempt) :
    exchange.1.Reads ∨ ∃ (console : Console) (detected : FallibleHost),
      detected.disk = world.disk ∧ exchange ∈ detected.log (next console).attempt := by
  rcases FallibleHost.mem_log_action_bind h with h | ⟨console, detected, hdetect, h⟩
  · rw [FallibleHost.log_action_lift] at h
    exact Or.inl (Console.detect_obeys.log h)
  · rw [FallibleHost.run_action_lift] at hdetect
    refine Or.inr ⟨console, detected, ?_, h⟩
    rw [← (Prod.mk.inj hdetect).2]
    exact Console.detect_obeys.disk_run world

/-- A run creates files in the directory of the reports only. -/
theorem RunOptions.creates_reports {options : RunOptions} (hname : '/' ∉ options.ruleSet.toList)
    {exchange : Exchange} (h : exchange ∈ world.log options.perform.attempt) :
    exchange.1.CreatesAt (options.project.ReportPath world.disk) := by
  unfold perform at h
  rcases Console.mem_log_of_detect h with h | ⟨console, detected, hdetected, h⟩
  · exact h.createsAt
  rcases FallibleHost.mem_log_action_bind h with h | ⟨plan, planned, hplan, h⟩
  · rcases (options.plan_obeys console).log h with h | ⟨path, h⟩
    · exact h.createsAt
    · rw [h]
      trivial
  obtain ⟨root, hroot, hdir, hset⟩ := run_plan_reports hplan
  rw [hdetected] at hroot
  -- the batch creates nothing, and its report is created under its name
  have hreads : ∀ {α : Type} {script : Script α},
      script.Obeys Request.Reads (fun _ => True) → (liftM script : Action α).Obeys
        (Request.CreatesAt (options.project.ReportPath world.disk)) (fun _ => True)
        fun _ => True :=
    fun h => .lift (h.mono (fun _ hr => hr.createsAt) fun _ h => h)
  have hfiles : ∀ report : BatchReport, report.ruleSet = plan.batch.ruleSet.name →
      Action.Obeys (Request.CreatesAt (options.project.ReportPath world.disk)) (fun _ => True)
        (fun _ => True) ((ReportStore.mk plan.outDir).file report.fileName report.toJson).settle :=
    fun report hreport => by
      rw [hset] at hreport
      refine .lift (Script.Obeys.mono (ReportStore.file_creates_at _ fun path hpath => ?_)
        (fun _ h => h) fun _ _ => trivial)
      rw [hdir] at hpath
      exact ProjectOptions.reportPath_of_namePath hroot
        (BatchReport.slash_not_mem_fileName (hreport ▸ hname)) hpath
  refine Action.asks_of_log ?_ h
  refine .bind (.lift (plan.batch.run_creates plan.files plan.window)) fun report hreport => ?_
  refine .bind (hfiles report hreport) fun filed _ => ?_
  refine .bind (hreads (report.tell_obeys console _)) fun _ _ => ?_
  refine .bind (hreads (console.summary_obeys _)) fun _ _ => ?_
  split
  · exact .throw trivial
  · split
    · exact .throw trivial
    · exact .pure trivial

/-- So does a scan. -/
theorem ScanOptions.creates_reports {options : ScanOptions} (hname : '/' ∉ options.ruleSet.toList)
    {exchange : Exchange} (h : exchange ∈ world.log options.perform.attempt) :
    exchange.1.CreatesAt (options.project.ReportPath world.disk) := by
  unfold perform at h
  rcases Console.mem_log_of_detect h with h | ⟨console, detected, hdetected, h⟩
  · exact h.createsAt
  rcases FallibleHost.mem_log_action_bind h with h | ⟨setup, loaded, hload, h⟩
  · exact ((Setup.load_obeys _).log h).createsAt
  have hloaded : loaded.disk = detected.disk := (Setup.load_obeys _).disk_of_run hload
  rcases FallibleHost.mem_log_action_bind h with h | ⟨ruleSet, chosen, hchosen, h⟩
  · exact Request.Reads.createsAt
      (Script.Obeys.log (Action.Obeys.ofExcept (setup.ruleSet_refuses _)) h)
  rw [FallibleHost.run_action_ofExcept] at hchosen
  obtain ⟨hset, rfl⟩ := Prod.mk.inj hchosen
  rcases FallibleHost.mem_log_action_bind h with h | ⟨root, found, hroot, h⟩
  · exact (options.project.resolveRoot_obeys.log h).createsAt
  have hcanonical := ProjectOptions.run_resolveRoot hroot
  rw [hloaded, hdetected] at hcanonical
  -- from here on everything is read, but for the report that is filed
  have hreads : ∀ {α : Type} {action : Action α} {fails : Fault → Prop},
      action.Obeys Request.Reads (fun _ => True) fails → action.Obeys
        (Request.CreatesAt (options.project.ReportPath world.disk)) (fun _ => True)
        fun _ => True :=
    fun h => h.mono (fun _ hr => hr.createsAt) (fun _ _ => trivial) fun _ _ => trivial
  have hname : ∀ report : IssueReport, report.ruleSet = ruleSet.name →
      '/' ∉ report.fileName.toList := fun report hreport =>
    IssueReport.slash_not_mem_fileName (by rwa [hreport, Setup.name_of_ruleSet hset])
  refine Action.asks_of_log ?_ h
  refine .bind (hreads (Catalog.list_obeys _ _)) fun files _ => ?_
  refine .bind (.lift ((scan_obeys _ _ _ _).mono (fun _ hr => hr.createsAt) fun _ h => h))
    fun report hreport => ?_
  refine .bind (ReportStore.file_creates_at _ fun path hpath =>
    ProjectOptions.reportPath_of_namePath hcanonical (hname report hreport) hpath) fun path _ => ?_
  refine .bind (.lift ((report.tell_obeys console path).mono (fun _ hr => hr.createsAt)
    fun _ h => h)) fun _ _ => ?_
  exact .lift ((console.summary_obeys _).mono (fun _ hr => hr.createsAt) fun _ h => h)

/-- **Reports stay in their directory, and none is lost for its name**, when there is no slash in
the name of the rule set.  Whatever the configuration, the window, the directory and the refusals
are, a run and a scan create files only there.  The report of a batch that was carried out is
filed, if the directory is there still, nothing refuses, and among the names of the report, which
the disk takes, one is free. -/
theorem reports_stay {ruleSet : String} (hname : '/' ∉ ruleSet.toList) (world : FallibleHost) :
    (∀ options : RunOptions, options.ruleSet = ruleSet →
      (∀ exchange ∈ world.log options.perform.attempt,
        exchange.1.CreatesAt (options.project.ReportPath world.disk)) ∧
      ∀ plan, (options.planned world).1 = .ok plan →
        let start := (options.planned world).2
        let done := plan.carriedOut start
        let store := ReportStore.mk plan.outDir
        (∀ path, (plan.filed start).1 = .ok path → options.project.ReportPath world.disk path) ∧
        (done.2.Grants → done.2.disk.Solid done.2.disk.here →
          done.2.disk.isDirectory plan.outDir = true → store.Fits done.1.fileName →
          (∃ attempt, 1 ≤ attempt ∧ attempt ≤ ReportStore.nameLimit ∧
            ¬ done.2.disk.Occupied (store.place done.1.fileName attempt)) →
          ∃ path, (plan.filed start).1 = .ok path)) ∧
    ∀ options : ScanOptions, options.ruleSet = ruleSet →
      ∀ exchange ∈ world.log options.perform.attempt,
        exchange.1.CreatesAt (options.project.ReportPath world.disk) := by
  refine ⟨?_, ?_⟩
  · rintro options rfl
    refine ⟨fun exchange => options.creates_reports hname, fun plan hplan => ?_⟩
    intro start done store
    obtain ⟨root, hroot, hdir, hset⟩ := RunOptions.run_plan_reports (Prod.ext hplan rfl)
    rw [Console.detect_obeys.disk_run world] at hroot
    have hrun : (plan.batch.run plan.files plan.window).Obeys (Request.CreatesAt fun _ => True)
        fun report => report.ruleSet = plan.batch.ruleSet.name := plan.batch.run_creates _ _
    have hreport : done.1.ruleSet = plan.batch.ruleSet.name := hrun.result
    have hplain : '/' ∉ done.1.fileName.toList :=
      BatchReport.slash_not_mem_fileName (by rwa [hreport, hset])
    refine ⟨fun path hpath => ?_, fun hgrants hs hthere hfits hfree => ?_⟩
    · have hfiled : Outcome (store.NamePath done.1.fileName) (fun _ => True)
          (plan.filed start).1 :=
        Script.Obeys.result (ReportStore.file_creates store _ done.1.toJson)
      rw [hpath] at hfiled
      rw [Outcome, show store = ⟨options.project.resolveOutDir root⟩ from hdir ▸ rfl] at hfiled
      exact ProjectOptions.reportPath_of_namePath hroot hplain hfiled
    · obtain ⟨path, hpath, -⟩ := store.run_file_of_fits hgrants hs hthere hplain hfits
        done.1.toJson hfree
      exact ⟨path, hpath⟩
  · rintro options rfl exchange
    exact options.creates_reports hname

/-! ### Names with and without a slash -/

/-- What comes after the configuration in a plan. -/
def RunOptions.planWith (options : RunOptions) (console : Console) (setup : Setup) :
    Action RunPlan := do
  let ruleSet ← (setup.ruleSet options.ruleSet : Except Fault _)
  let root ← options.project.resolveRoot
  let outDir := options.project.resolveOutDir root
  let backupDir := options.project.resolveBackupDir root
  prepareOutDir outDir
  let catalog := Catalog.skippingBackups { root } backupDir
  let files ← catalog.list (options.source.source setup)
  if options.start ≥ files.size then
    console.warning ("start index " ++ toString options.start ++ " is past the end of " ++
      toString files.size ++ " candidate files")
  let gate ← (options.gate? setup root outDir : Except Fault _)
  let vault : Vault := ⟨root, backupDir, options.refreshBackups⟩
  return {
    batch := {
      ruleSet, root, gate
      exclusion := setup.exclusion options.project.exclude
      vault := if options.dryRun || options.noBackup then none else some vault
      dryRun := options.dryRun }
    files, outDir
    window := ⟨options.start, options.batchSize⟩ }

/-- A plan that has its configuration goes on with it. -/
theorem RunOptions.planned_of_load {options : RunOptions} {loaded : FallibleHost}
    {result : Except Fault Setup} (hsize : options.batchSize ≠ 0)
    (hload : (world.run Console.detect).2.run (Setup.load options.project.config).attempt =
      (result, loaded)) :
    options.planned world = loaded.run
      (liftM result >>= options.planWith (world.run Console.detect).1 : Action RunPlan).attempt := by
  unfold planned plan
  dsimp only
  rw [if_neg hsize, FallibleHost.run_action_bind, hload]
  cases result <;> rfl

/-- A plan has its rule set from a configuration that was accepted. -/
theorem RunOptions.exists_ruleSet_of_planned {options : RunOptions} {plan : RunPlan}
    (h : (options.planned world).1 = .ok plan) : ∃ setup loaded set,
      (world.run Console.detect).2.run (Setup.load options.project.config).attempt =
        (.ok setup, loaded) ∧ setup.ruleSet options.ruleSet = .ok set := by
  obtain ⟨setup, set, -, -, loaded, -, -, -, hload, hset, -⟩ := run_plan_stages (Prod.ext h rfl)
  exact ⟨setup, loaded, set, hload, hset⟩

namespace Sample

/-- A configuration with one rule set, that gives the length four a token. -/
def named (ruleSet : String) : Configuration where
  entries := [⟨"4", .radius, "r"⟩]
  ruleSets := [(ruleSet, [⟨"f", .radius, "(?<value>4)", "", false⟩])]

/-- A world with that configuration beside other files. -/
def configured (ruleSet : String) (entries : List (Place × Entry)) : FallibleHost where
  host := {
    disk := {
      entries := (["c"], .file (named ruleSet).toJson.compact.toUTF8) :: entries
      here := ["p"] } }

theorem grants_configured (ruleSet : String) (entries : List (Place × Entry)) :
    (configured ruleSet entries).Grants :=
  fun _ _ => rfl

theorem read_configured (ruleSet : String) (entries : List (Place × Entry)) :
    (configured ruleSet entries).disk.read ⟨"/c"⟩ = .ok (named ruleSet).toJson.compact.toUTF8 :=
  Disk.read_eq_ok_iff.2 ⟨["c"], .file (named ruleSet).toJson.compact.toUTF8, rfl, Or.inl rfl⟩

/-- A command that has found out about its console loads that configuration. -/
theorem load_named {ruleSet : String} (hgrants : world.Grants)
    (hread : world.disk.read ⟨"/c"⟩ = .ok (named ruleSet).toJson.compact.toUTF8)
    {project : ProjectOptions} (hconfig : project.config = some ⟨"/c"⟩) :
    (world.run Console.detect).2.run (Setup.load project.config).attempt =
      ((named ruleSet).checked, { (world.run Console.detect).2 with
        asked := (world.run Console.detect).2.asked + 2 }) := by
  have htimeout : 300 < Count.bound := by decide
  rw [hconfig]
  refine Setup.run_load_of_read (hgrants.run _) ⟨List.pairwise_singleton _ _, htimeout⟩ ?_
  rw [Console.detect_obeys.disk_run world]
  exact hread

/-- A project with one source. -/
def namedWorld (ruleSet : String) : FallibleHost :=
  configured ruleSet [(["p"], .directory), (["p", "a.css"], .file "4".toUTF8)]

/-- A run on that project. -/
def namedRun (ruleSet : String) : RunOptions where
  ruleSet := ruleSet
  noBackup := true
  project := { root := ⟨"/p"⟩, config := some ⟨"/c"⟩ }

/-- The plan of that run goes on with the configuration. -/
theorem planned_named (ruleSet : String) :
    (namedRun ruleSet).planned (namedWorld ruleSet) =
      FallibleHost.run { ((namedWorld ruleSet).run Console.detect).2 with
          asked := ((namedWorld ruleSet).run Console.detect).2.asked + 2 }
        (liftM (named ruleSet).checked >>= (namedRun ruleSet).planWith
          ((namedWorld ruleSet).run Console.detect).1 : Action RunPlan).attempt := by
  have hsize : (namedRun ruleSet).batchSize ≠ 0 := Nat.succ_ne_zero 19
  have hconfig : (namedRun ruleSet).project.config = some ⟨"/c"⟩ := rfl
  have hgrants : (namedWorld ruleSet).Grants := grants_configured _ _
  exact RunOptions.planned_of_load hsize (load_named hgrants (read_configured _ _) hconfig)

/-- What has become of a report and of the source when a plan was carried out: whether the one
was filed, and the bytes of the other. -/
def fateOf (planned : Except Fault RunPlan × FallibleHost) : Option (Bool × Option ByteArray) :=
  planned.1.toOption.map fun plan =>
    let filed := plan.filed planned.2
    (filed.1.toOption.isSome, filed.2.disk.file? ["p", "a.css"])

theorem exists_of_fateOf {planned : Except Fault RunPlan × FallibleHost}
    {fate : Bool × Option ByteArray} (h : fateOf planned = some fate) :
    ∃ plan, planned.1 = .ok plan ∧ (plan.filed planned.2).1.toOption.isSome = fate.1 ∧
      (plan.filed planned.2).2.disk.file? ["p", "a.css"] = fate.2 := by
  obtain ⟨fault | plan, start⟩ := planned
  · cases h
  · cases h
    exact ⟨plan, rfl, rfl, rfl⟩

theorem filed_of_fateOf {options : RunOptions}
    (h : fateOf (options.planned world) = some (true, some "r".toUTF8)) : ∃ plan path,
      (options.planned world).1 = .ok plan ∧ (plan.filed (options.planned world).2).1 = .ok path := by
  obtain ⟨plan, hplan, hfiled, -⟩ := exists_of_fateOf h
  cases hend : (plan.filed (options.planned world).2).1 with
  | ok path => exact ⟨plan, path, hplan, hend⟩
  | error fault =>
    rw [hend] at hfiled
    cases hfiled

theorem lost_of_fateOf {options : RunOptions}
    (h : fateOf (options.planned world) = some (false, some "r".toUTF8)) :
    (∃ setup loaded set, (world.run Console.detect).2.run
        (Setup.load options.project.config).attempt = (.ok setup, loaded) ∧
      setup.ruleSet options.ruleSet = .ok set) ∧
    (world.run options.perform.attempt).2.disk.file? ["p", "a.css"] = some "r".toUTF8 ∧
    ∃ outDir reason,
      (world.run options.perform.attempt).1 = .error (.reportUnwritten outDir reason) := by
  obtain ⟨plan, hplan, hfiled, hfile⟩ := exists_of_fateOf h
  refine ⟨RunOptions.exists_ruleSet_of_planned hplan, ?_⟩
  rcases options.run_perform world with ⟨fault, hfault, -⟩ | ⟨other, hother, hended, hdisk⟩
  · rw [hplan] at hfault
    cases hfault
  obtain rfl : plan = other := Except.ok.inj (hplan.symm.trans hother)
  rw [hdisk, hended, RunPlan.verdict]
  refine ⟨hfile, ?_⟩
  cases hend : (plan.filed (options.planned world).2).1 with
  | ok path =>
    rw [hend] at hfiled
    cases hfiled
  | error fault => exact ⟨_, _, rfl⟩

/-- **Without a slash in the name a report is filed** in its directory. -/
theorem report_stays : ∃ plan path,
    ((namedRun "f").planned (namedWorld "f")).1 = .ok plan ∧
      (plan.filed ((namedRun "f").planned (namedWorld "f")).2).1 = .ok path ∧
      ∃ label, IsLabel label ∧ path = (Path.mk "/p").child label := by
  have hfate : fateOf ((namedRun "f").planned (namedWorld "f")) =
      some (true, some "r".toUTF8) := by
    rw [planned_named]
    decide +kernel
  obtain ⟨plan, path, hplan, hpath⟩ := filed_of_fateOf hfate
  have hstays := (reports_stay (by decide : '/' ∉ "f".toList) (namedWorld "f")).1 (namedRun "f") rfl
  obtain ⟨root, label, hroot, hlabel, hchild⟩ := (hstays.2 plan hplan).1 path hpath
  obtain rfl : (Path.mk "/p") = root := Except.ok.inj hroot
  exact ⟨plan, path, hplan, hpath, label, hlabel, hchild⟩

/-- **With a slash in the name a report is lost**, when the source was changed already: the
configuration is accepted, nothing is refused, and still the run ends without its report. -/
theorem report_lost :
    (∃ setup set, (named "f/f").checked = .ok setup ∧ setup.ruleSet "f/f" = .ok set) ∧
    (namedWorld "f/f").Grants ∧
    (namedWorld "f/f").disk.file? ["p", "a.css"] = some "4".toUTF8 ∧
    ((namedWorld "f/f").run (namedRun "f/f").perform.attempt).2.disk.file? ["p", "a.css"] =
      some "r".toUTF8 ∧
    ∃ outDir reason, ((namedWorld "f/f").run (namedRun "f/f").perform.attempt).1 =
      .error (.reportUnwritten outDir reason) := by
  have hfate : fateOf ((namedRun "f/f").planned (namedWorld "f/f")) =
      some (false, some "r".toUTF8) := by
    rw [planned_named]
    decide +kernel
  obtain ⟨⟨setup, loaded, set, hload, hset⟩, hlost⟩ := lost_of_fateOf hfate
  have hgrants : (namedWorld "f/f").Grants := grants_configured _ _
  have hconfig : (namedRun "f/f").project.config = some ⟨"/c"⟩ := rfl
  rw [load_named hgrants (read_configured _ _) hconfig] at hload
  exact ⟨⟨setup, set, (Prod.mk.inj hload).1, hset⟩, hgrants, rfl, hlost⟩

end Sample

end StyleTokens

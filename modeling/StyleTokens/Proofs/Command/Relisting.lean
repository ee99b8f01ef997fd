/-
Listings before and after a run.

What a run leaves in a project is hidden from the listing of its sources: copies lie in a
directory that is not entered, and logs and reports have other endings.

* `Catalog.listed_eq` — disks that look the same where a glob looks are listed alike;
* `not_sees_of_backups`, `not_sees_of_ending` — where the glob for sources does not look;
* `RunOptions.run_plan_stages`, `run_plan_ok` — the stages of a plan, and what it has for its
  vault and its files;
* `relisting_stable` — a run leaves the listing as it was.

Design notes: links can lead what is written to where the glob looks, so that there may be
none in the directory of the copies, nor at the end of the path of a log.  The path of a
report need not be looked at, as a report is never written through a link.
-/
import StyleTokens.Proofs.Batch.Unseen
import StyleTokens.Proofs.Command.Exit
import StyleTokens.Proofs.Glob.Ending
import StyleTokens.Proofs.Json.Records
import StyleTokens.Proofs.Vault.Locations
import StyleTokens.Proofs.World.Granting

namespace StyleTokens

open Path (IsLabel labels)

section

variable {world after : FallibleHost} {disk later : Disk} {catalog : Catalog} {vault : Vault}
  {glob : Glob} {top place : Place} {names : List String} {file text : String} {root path : Path}

/-! ### Where the glob for sources looks -/

namespace Catalog

/-- **Disks that look the same are listed alike.** -/
theorem listed_eq (honce : disk.Once)
    (hroot : disk.find true catalog.root = .ok (.at top .directory))
    (hparse : Glob.parse text = .ok glob)
    (h : disk.LooksLike later catalog.root (catalog.Sees glob top)) :
    catalog.listed later (.glob text) = catalog.listed disk (.glob text) := by
  obtain ⟨found, hfound⟩ := files_of_directory hroot
  obtain ⟨foundLater, hlater⟩ := files_of_directory (h.root top hroot)
  rw [listed_glob hroot hparse hfound, listed_glob (h.root top hroot) hparse hlater]
  refine congrArg Except.ok (Names.ext_mem fun file => ?_)
  rw [mem_pick_iff (h.once honce) (h.root top hroot) hlater, mem_pick_iff honce hroot hfound]
  refine exists_congr fun names => and_congr_right fun _ => and_congr_right fun hsees => ?_
  exact h.isSome_iff _ hsees

/-! ### Where the glob for sources does not look -/

theorem exists_intercalate_concat (names : List String) (last : String) :
    ∃ front, "/".intercalate (names ++ [last]) = front ++ last := by
  by_cases hn : names = []
  · exact ⟨"", by simp [hn]⟩
  · exact ⟨_, String.intercalate_append_of_ne_nil hn (by simp)⟩

/-- It does not look at names with other endings. -/
theorem not_sees_of_ending {front tail : String} (ht : tail ∈ Glob.otherEndings)
    (hp : place.getLast? = some (front ++ tail)) : ¬ catalog.Sees Glob.sources top place := by
  rintro ⟨names, rfl, -, haccepts⟩
  rcases List.eq_nil_or_concat names with rfl | ⟨before, last, rfl⟩
  · have hempty : Glob.sources.accepts ("/".intercalate []) = false := by decide
    rw [hempty] at haccepts
    cases haccepts
  · rw [List.concat_eq_append, ← List.append_assoc, List.getLast?_concat] at hp
    obtain ⟨start, hstart⟩ := exists_intercalate_concat before last
    have hlast : start ++ last = (start ++ front) ++ tail := by
      rw [Option.some.inj hp, String.append_assoc]
    have hrefused := Glob.not_accepts_of_tail ht hlast
    rw [List.concat_eq_append, hstart, hrefused] at haccepts
    cases haccepts

/-- It does not look below a directory that is not entered, nor at a file with its name. -/
theorem not_sees_of_backups (hc : "backups" ∈ catalog.skipped) (rest : List String) :
    ¬ catalog.Sees Glob.sources top (top ++ "backups" :: rest) := by
  by_cases hr : rest = []
  · subst hr
    have hlast : (top ++ ["backups"]).getLast? = some ("" ++ "backups") := List.getLast?_concat
    exact not_sees_of_ending (by simp [Glob.otherEndings]) hlast
  · rintro ⟨names, heq, hhides, -⟩
    obtain rfl := List.append_cancel_left heq
    rw [hides, List.dropLast_cons_of_ne_nil hr] at hhides
    simp [hc] at hhides

end Catalog

/-! ### Where a run writes -/

/-- The directory of the copies, where it has no name of its own given. -/
theorem isLabel_backups : IsLabel "backups" :=
  ⟨by decide, by decide, by decide⟩

/-- The places of copies lie below the root, in the directory of the copies. -/
theorem Vault.place_of_snapshotPlace (hv : vault.backupRoot = root.child "backups")
    (hroot : disk.find true root = .ok (.at top .directory))
    (hlinks : ∀ below, disk.link? (top ++ "backups" :: below) = none) {files : List String}
    (hp : vault.SnapshotPlace disk files place) : ∃ rest, place = top ++ "backups" :: rest := by
  have hbackups : disk.destination vault.backupRoot = some (top ++ ["backups"]) := by
    rw [hv]
    refine Disk.destination_below (Disk.destination_of_find hroot (by simp))
      (Path.isAbsolute_child root isLabel_backups) (Path.moves_child root isLabel_backups)
      (by simpa using isLabel_backups) fun below hbelow hne => ?_
    have honly : below <+: [] ++ ["backups"] := hbelow
    obtain rfl : below = ["backups"] := (List.prefix_concat_iff.1 honly).resolve_right
      fun hnil => hne (List.prefix_nil.1 hnil)
    exact hlinks []
  have hl : ∀ below, below ≠ [] → disk.link? (top ++ ["backups"] ++ below) = none := by
    intro below _
    rw [List.append_assoc]
    exact hlinks below
  have hlocation : ∀ {path : Path} {rest : List String},
      path.isAbsolute = vault.backupRoot.isAbsolute → path.moves = vault.backupRoot.moves ++ rest →
      (∀ name ∈ rest, IsLabel name) → disk.destination path = some place →
      ∃ rest, place = top ++ "backups" :: rest := by
    intro path rest habs hmoves hlabels hd
    rw [destination_of_location hbackups hl habs hmoves hlabels] at hd
    exact ⟨rest, by rw [← Option.some.inj hd, List.append_assoc]; rfl⟩
  have hlabels : ∀ (file : String), ∀ name ∈ labels ⟨file⟩, IsLabel name :=
    fun file _ => Path.isLabel_of_mem_labels
  rcases hp with hp | ⟨file, -, hp | hp⟩
  · exact hlocation vault.isAbsolute_manifestPath vault.moves_manifestPath
      (by simpa using Vault.isLabel_manifest) hp
  · exact hlocation (vault.isAbsolute_backupPath file) (vault.moves_backupPath file)
      (hlabels file) hp
  · refine hlocation (vault.isAbsolute_pristinePath file) (vault.moves_pristinePath file)
      (fun name hn => ?_) hp
    rcases List.mem_cons.1 hn with rfl | hn
    · exact Vault.isLabel_pristine
    · exact hlabels file name hn

/-- The paths of the logs of a gate have the ending of logs. -/
theorem Gate.not_sees_log {gate : Gate} {path : Path}
    (hpath : path = gate.outLog ∨ path = gate.errLog) (hlink : ¬ disk.EndsInLink path)
    (hd : disk.destination path = some place) : ¬ catalog.Sees Glob.sources top place := by
  have htext : ∃ front, path.text = front ++ ".log" := by
    rcases hpath with rfl | rfl
    · obtain ⟨front, hfront⟩ := Path.text_child gate.logDirectory (gate.stem ++ ".stdout.log")
      exact ⟨front ++ gate.stem ++ ".stdout", by
        rw [Gate.outLog, hfront]
        simp [String.append_assoc]⟩
    · obtain ⟨front, hfront⟩ := Path.text_child gate.logDirectory (gate.stem ++ ".stderr.log")
      exact ⟨front ++ gate.stem ++ ".stderr", by
        rw [Gate.errLog, hfront]
        simp [String.append_assoc]⟩
  obtain ⟨front, htext⟩ := htext
  obtain ⟨before, name, hstretches, hlabel⟩ :=
    Path.stretches_of_ending htext (by decide) (by decide)
  exact Catalog.not_sees_of_ending (by simp [Glob.otherEndings])
    (Disk.getLast?_of_destination (Path.moves_of_stretches hstretches hlabel.not_idle) hlabel
      hlink hd)

/-- A report is filed where nobody looks for sources. -/
theorem ReportStore.file_unseen (store : ReportStore) (name : String) (document : Json)
    (start : Disk) :
    (store.file name document).Obeys (fun request => request.Adds ∧
      request.Unseen start (catalog.Sees Glob.sources top)) (fun _ => True) fun _ => True := by
  have hcreate : ∀ attempt data, Request.Unseen start (catalog.Sees Glob.sources top)
      (.create (store.place name attempt) data) := by
    intro attempt data disk parent other hf
    obtain ⟨front, hfront⟩ := Path.text_child store.directory
      (stem name ++ (if attempt = 1 then "" else "-" ++ toString attempt) ++ ".json")
    have htext : (store.place name attempt).text =
        (front ++ (stem name ++ (if attempt = 1 then "" else "-" ++ toString attempt))) ++ ".json" :=
      hfront.trans String.append_assoc.symm
    obtain ⟨before, last, hstretches, -⟩ := Path.stretches_of_ending htext (by decide) (by decide)
    rw [Disk.getLast?_absent hstretches hf]
    exact Catalog.not_sees_of_ending (by simp [Glob.otherEndings]) List.getLast?_concat
  have hfrom : ∀ left attempt data, (store.fileFrom name data left attempt).Obeys
      (fun request => request.Adds ∧ request.Unseen start (catalog.Sees Glob.sources top))
      (fun _ => True) fun _ => True := by
    intro left attempt data
    induction left generalizing attempt with
    | zero => exact .throw trivial
    | succ left ih =>
      refine .bind (.lift (.request (.create _ _) ⟨trivial, hcreate attempt data⟩))
        fun reply _ => ?_
      split
      · exact .pure trivial
      · exact ih _
      · exact .throw trivial
  exact .bind (.ofIo_any (.request (.makeDirectories _) ⟨trivial, trivial⟩)) fun _ _ =>
    hfrom nameLimit 1 _

/-! ### A run -/

/-- All that holds of a configuration that was checked, and what its setup is made of. -/
theorem Configuration.checked_cases {configuration : Configuration} {setup : Setup}
    (h : configuration.checked = .ok setup) :
    configuration.schemaVersion = StyleTokens.schemaVersion ∧ configuration.ruleSets ≠ [] ∧
      0 < configuration.gate.timeoutSeconds ∧ setup.configuration = configuration ∧
      TokenTable.ofEntries configuration.entries = .ok setup.table ∧
      (configuration.ruleSets.mapM fun named =>
        RuleSet.ofDrafts named.1 named.2 setup.table) = .ok setup.ruleSets := by
  unfold checked at h
  dsimp only at h
  split at h
  · cases h
  next hversion =>
  split at h
  · cases h
  next hsome =>
  split at h
  · cases h
  next htimeout =>
  cases htable : TokenTable.ofEntries configuration.entries with
  | error fault =>
    rw [htable] at h
    cases h
  | ok table =>
    rw [htable] at h
    dsimp only [bind, Except.bind] at h
    split at h
    · cases h
    next sets hmade =>
    cases h
    exact ⟨of_not_not hversion, by simpa using hsome, Nat.pos_of_ne_zero htimeout, rfl, rfl, hmade⟩

theorem Setup.run_load_none {setup : Setup}
    (h : world.run (Setup.load none).attempt = (.ok setup, after)) :
    setup.configuration = Builtin.configuration := by
  unfold Setup.load at h
  dsimp only at h
  rw [FallibleHost.run_action_bind, FallibleHost.run_action_pure] at h
  dsimp only at h
  rw [FallibleHost.run_action_ofExcept] at h
  obtain ⟨-, -, -, hself, -⟩ := Configuration.checked_cases (Prod.mk.inj h).1
  exact hself

/-- A configuration that is written in a file is loaded, and nothing else happens. -/
theorem Setup.run_load_of_read {configuration : Configuration} (hgrants : world.Grants)
    (h : configuration.Sized)
    (hread : world.disk.read path = .ok configuration.toJson.compact.toUTF8) :
    world.run (Setup.load (some path)).attempt =
      (configuration.checked, { world with asked := world.asked + 2 }) := by
  have hparse := Configuration.parse_of_read h (Json.read_compact (Configuration.exact_toJson h))
  have hload := hgrants.run_ensurePresent_readText (fun text => do
    let configuration ← Configuration.parse text
    configuration.checked) hread (fromUTF8?_toUTF8 _)
  unfold load
  dsimp only
  rw [hload, FallibleHost.run_action_bind, FallibleHost.run_action_ofExcept, hparse]
  dsimp only
  rw [FallibleHost.run_action_ofExcept]

/-- A request that reads, or that makes directories, is not seen. -/
theorem Request.unseen_of_plain {request : Request} {seen : Place → Prop}
    (h : request.Reads ∨ ∃ path, request = .makeDirectories path) : request.Unseen disk seen := by
  rcases h with h | ⟨path, rfl⟩
  · exact h.unseen
  · trivial

/-- A plan reads, and makes directories for the reports. -/
theorem RunOptions.plan_obeys (options : RunOptions) (console : Console) :
    (options.plan console).Obeys
      (fun request => request.Reads ∨ ∃ path, request = .makeDirectories path) (fun _ => True)
      fun _ => True := by
  have hreads : ∀ {α : Type} {action : Action α} {fails : Fault → Prop},
      action.Obeys Request.Reads (fun _ => True) fails → action.Obeys
        (fun request => request.Reads ∨ ∃ path, request = .makeDirectories path) (fun _ => True)
        fun _ => True :=
    fun h => h.mono (fun _ hr => Or.inl hr) (fun _ _ => trivial) fun _ _ => trivial
  unfold plan
  dsimp only
  split
  · have hrefused : (throw (.invalidArgument .zeroBatchSize) : Action Unit).Obeys
        (fun request => request.Reads ∨ ∃ path, request = .makeDirectories path) (fun _ => False)
        fun _ => True := .throw trivial
    exact .bind hrefused fun _ hnone => hnone.elim
  refine .bind (hreads (Setup.load_obeys _)) fun setup _ => ?_
  refine .bind (hreads (.ofExcept (setup.ruleSet_refuses _))) fun ruleSet _ => ?_
  refine .bind (hreads options.project.resolveRoot_obeys) fun root _ => ?_
  refine .bind ((prepareOutDir_obeys _).mono (fun _ hr => hr.imp_right fun he => ⟨_, he⟩)
    (fun _ _ => trivial) fun _ _ => trivial) fun _ _ => ?_
  refine .bind (hreads (Catalog.list_obeys _ _)) fun files _ => ?_
  have hgate (plan : Option Gate → RunPlan) : Action.Obeys
      (fun request => request.Reads ∨ ∃ path, request = .makeDirectories path) (fun _ => True)
      (fun _ => True) (do
        let gate ← (options.gate? setup root (options.project.resolveOutDir root) : Except Fault _)
        return plan gate) :=
    .bind (hreads (.ofExcept (options.gate?_refuses _ _ _))) fun _ _ => .pure trivial
  split
  · exact .bind (.lift ((Console.line_obeys _ _ _).mono (fun _ hr => Or.inl hr) fun _ h => h))
      fun _ _ => hgate _
  · exact hgate _

/-- Nobody sees the directory that is made for the reports. -/
theorem unfolds_of_prepareOutDir {made : FallibleHost} {seen : Place → Prop}
    (hs : world.disk.Solid world.disk.here)
    (h : world.run (prepareOutDir path).attempt = (.ok (), made)) :
    world.disk.Unfolds made.disk root seen := by
  have hobeys := Script.Obeys.mono (prepareOutDir_obeys path)
    (fun request hr => show request.Unseen world.disk seen from
      Request.unseen_of_plain (hr.imp_right fun he => ⟨_, he⟩)) fun _ h => h
  have hrun := hobeys.unfolds hs (.refl world.disk root seen)
  rwa [h] at hrun

/-- The stages of a plan that was made, each with what it has led to. -/
theorem RunOptions.run_plan_stages {options : RunOptions} {console : Console} {plan : RunPlan}
    (h : world.run (options.plan console).attempt = (.ok plan, after)) :
    ∃ (setup : Setup) (ruleSet : RuleSet) (root : Path) (gate : Option Gate)
        (loaded found made listed : FallibleHost),
      world.run (Setup.load options.project.config).attempt = (.ok setup, loaded) ∧
      setup.ruleSet options.ruleSet = .ok ruleSet ∧
      loaded.run options.project.resolveRoot.attempt = (.ok root, found) ∧
      found.run (prepareOutDir (options.project.resolveOutDir root)).attempt = (.ok (), made) ∧
      made.run ((Catalog.skippingBackups { root } (options.project.resolveBackupDir root)).list
        (options.source.source setup)).attempt = (.ok plan.files, listed) ∧
      plan = ⟨⟨ruleSet, setup.exclusion options.project.exclude, root,
          if options.dryRun || options.noBackup then none
          else some ⟨root, options.project.resolveBackupDir root, options.refreshBackups⟩,
          gate, options.dryRun⟩, plan.files, ⟨options.start, options.batchSize⟩,
        options.project.resolveOutDir root⟩ := by
  unfold RunOptions.plan at h
  dsimp only at h
  split at h
  · cases h
  replace ⟨setup, loaded, hload, h⟩ := FallibleHost.run_action_bind_ok h
  replace ⟨ruleSet, chosen, hchosen, h⟩ := FallibleHost.run_action_bind_ok h
  replace ⟨root, found, hroot, h⟩ := FallibleHost.run_action_bind_ok h
  replace ⟨_, made, hmade, h⟩ := FallibleHost.run_action_bind_ok h
  replace ⟨files, listed, hlisted, h⟩ := FallibleHost.run_action_bind_ok h
  rw [FallibleHost.run_action_ofExcept] at hchosen
  obtain ⟨hset, rfl⟩ := Prod.mk.inj hchosen
  have hrest : ∀ (gated : FallibleHost) (warned : FallibleHost), warned.run (do
        let gate ← (options.gate? setup root (options.project.resolveOutDir root) : Except Fault _)
        return (RunPlan.mk ⟨ruleSet, setup.exclusion options.project.exclude, root,
          if options.dryRun || options.noBackup then none
          else some ⟨root, options.project.resolveBackupDir root, options.refreshBackups⟩,
          gate, options.dryRun⟩ files ⟨options.start, options.batchSize⟩
          (options.project.resolveOutDir root)) : Action RunPlan).attempt = (.ok plan, gated) →
      ∃ gate, plan = ⟨⟨ruleSet, setup.exclusion options.project.exclude, root,
          if options.dryRun || options.noBackup then none
          else some ⟨root, options.project.resolveBackupDir root, options.refreshBackups⟩,
          gate, options.dryRun⟩, files, ⟨options.start, options.batchSize⟩,
        options.project.resolveOutDir root⟩ := by
    intro gated warned h
    obtain ⟨gate, _, -, h⟩ := FallibleHost.run_action_bind_ok h
    exact ⟨gate, (Except.ok.inj (Prod.mk.inj h).1).symm⟩
  split at h
  · obtain ⟨_, warned, -, h⟩ := FallibleHost.run_action_bind_ok h
    obtain ⟨gate, rfl⟩ := hrest _ _ h
    exact ⟨setup, ruleSet, root, gate, _, found, made, listed, hload, hset, hroot, hmade,
      hlisted, rfl⟩
  · obtain ⟨gate, rfl⟩ := hrest _ _ h
    exact ⟨setup, ruleSet, root, gate, _, found, made, listed, hload, hset, hroot, hmade,
      hlisted, rfl⟩

/-- What a plan has for its vault, and where its files come from. -/
theorem RunOptions.run_plan_ok {options : RunOptions} {console : Console} {plan : RunPlan}
    (hs : world.disk.Solid world.disk.here)
    (h : world.run (options.plan console).attempt = (.ok plan, after)) :
    ∃ (setup : Setup) (root : Path), world.disk.canonical options.project.root = .ok root ∧
      (options.project.config = none → setup.configuration = Builtin.configuration) ∧
      (∀ vault, plan.batch.vault = some vault →
        vault.backupRoot = options.project.resolveBackupDir root) ∧
      ∃ made listed : FallibleHost, (∀ root seen, world.disk.Unfolds made.disk root seen) ∧
        made.run ((Catalog.skippingBackups { root } (options.project.resolveBackupDir root)).list
          (options.source.source setup)).attempt = (.ok plan.files, listed) := by
  obtain ⟨setup, ruleSet, root, gate, loaded, found, made, listed, hload, -, hroot, hmade, hlisted,
    hplan⟩ := run_plan_stages h
  -- up to the root the disk was read, and then directories were made for the reports
  have hloaded : loaded.disk = world.disk := (Setup.load_obeys _).disk_of_run hload
  have hfound : found.disk = world.disk :=
    (options.project.resolveRoot_obeys.disk_of_run hroot).trans hloaded
  have hcanonical := ProjectOptions.run_resolveRoot hroot
  rw [hloaded] at hcanonical
  have hunfolds : ∀ root seen, world.disk.Unfolds made.disk root seen := by
    rw [← hfound] at hs ⊢
    exact fun root seen => unfolds_of_prepareOutDir hs hmade
  refine ⟨setup, root, hcanonical, fun hconfig => ?_, fun vault hv => ?_, made, listed, hunfolds,
    hlisted⟩
  · rw [hconfig] at hload
    exact Setup.run_load_none hload
  · rw [hplan] at hv
    dsimp only at hv
    split at hv
    · cases hv
    · obtain rfl := Option.some.inj hv
      rfl

/-- So it is when the command has found out about its console. -/
theorem RunOptions.planned_ok {options : RunOptions} {plan : RunPlan}
    (hs : world.disk.Solid world.disk.here) (h : (options.planned world).1 = .ok plan) :
    ∃ (setup : Setup) (root : Path), world.disk.canonical options.project.root = .ok root ∧
      (options.project.config = none → setup.configuration = Builtin.configuration) ∧
      (∀ vault, plan.batch.vault = some vault →
        vault.backupRoot = options.project.resolveBackupDir root) ∧
      ∃ made listed : FallibleHost, (∀ root seen, world.disk.Unfolds made.disk root seen) ∧
        made.run ((Catalog.skippingBackups { root } (options.project.resolveBackupDir root)).list
          (options.source.source setup)).attempt = (.ok plan.files, listed) := by
  have hdetected := Console.detect_obeys.disk_run world
  rw [← hdetected] at hs ⊢
  exact run_plan_ok hs (Prod.ext h rfl)

/-- A plan makes directories at most. -/
theorem RunOptions.unfolds_planned (hs : world.disk.Solid world.disk.here)
    (options : RunOptions) (root : Path) (seen : Place → Prop) :
    world.disk.Unfolds (options.planned world).2.disk root seen := by
  have hdetected := Console.detect_obeys.disk_run world
  have hobeys := Script.Obeys.mono (options.plan_obeys (world.run Console.detect).1)
    (fun request hr => show request.Unseen world.disk seen from Request.unseen_of_plain hr)
    fun _ h => h
  refine hobeys.unfolds hs ?_
  rw [hdetected]
  exact .refl _ _ _

/-- A plan that is carried out leaves what is seen of the sources as it was. -/
theorem RunPlan.looksLike_filed {plan : RunPlan} {start : FallibleHost}
    (hs : start.disk.Solid start.disk.here)
    (hvault : plan.batch.Unseen start.disk (catalog.Sees Glob.sources top))
    (hgate : ∀ gate, plan.gate? = some gate →
      (∀ place, gate.LogPlace start.disk place → ¬ catalog.Sees Glob.sources top place) ∧
        start.Quiet gate root (catalog.Sees Glob.sources top)) :
    start.disk.LooksLike (plan.filed start).2.disk root (catalog.Sees Glob.sources top) := by
  have hprocessed := plan.batch.unfolds_process hvault hs root plan.windowFiles
  have hshell := start.shell_run (plan.batch.process plan.windowFiles)
  have hcarried : start.disk.LooksLike (plan.carriedOut start).2.disk root
      (catalog.Sees Glob.sources top) := by
    rw [carriedOut_eq]
    generalize start.run (plan.batch.process plan.windowFiles) = processed at hprocessed hshell
    dsimp only
    rw [FallibleHost.disk_reply_of_reads _ (show Request.Reads .now from trivial)]
    refine hprocessed.looksLike.trans
      (Batch.looksLike_verify (hprocessed.develops.solid_here hs) fun gate hsome => ?_)
    obtain ⟨hlogs, hquiet⟩ := hgate gate hsome
    refine ⟨fun place hp => hlogs place ?_, by rwa [FallibleHost.Quiet, hshell]⟩
    rwa [Gate.LogPlace, hprocessed.develops.destination_eq, hprocessed.develops.destination_eq] at hp
  exact hcarried.trans
    ((ReportStore.file_unseen (ReportStore.mk plan.outDir) (plan.carriedOut start).1.fileName
      (plan.carriedOut start).1.toJson start.disk).looksLike _ root)

section Relisting

variable {options : RunOptions} (hs : world.disk.Solid world.disk.here)
  (hcanonical : world.disk.canonical options.project.root = .ok root)
  (hroot : world.disk.find true root = .ok (.at top .directory))
  (hbackups : options.project.backupDir = none)

include hs hcanonical hroot hbackups

/-- What is seen of the sources is the same after a run. -/
theorem RunOptions.looksLike_perform (hskipped : "backups" ∈ catalog.skipped)
    (hlinks : ∀ below, world.disk.link? (top ++ "backups" :: below) = none)
    (hgate : ∀ plan, (options.planned world).1 = .ok plan → ∀ gate, plan.gate? = some gate →
      ¬ world.disk.EndsInLink gate.outLog ∧ ¬ world.disk.EndsInLink gate.errLog ∧
        world.Quiet gate root (catalog.Sees Glob.sources top)) :
    world.disk.LooksLike (world.run options.perform.attempt).2.disk root
      (catalog.Sees Glob.sources top) := by
  have hplanned := options.unfolds_planned hs root (catalog.Sees Glob.sources top)
  have hshell : (options.planned world).2.host.shell = world.host.shell :=
    (FallibleHost.shell_run _ _).trans (FallibleHost.shell_run _ _)
  rcases options.run_perform world with ⟨fault, -, hrun⟩ | ⟨plan, hplan, -, hdisk⟩
  · rw [hrun]
    exact hplanned.looksLike
  · rw [hdisk]
    refine hplanned.looksLike.trans
      (RunPlan.looksLike_filed (hplanned.develops.solid_here hs) ?_ fun gate hsome => ?_)
    · -- copies go below the directory that is not entered
      intro vault hv files place hp
      obtain ⟨setup, other, hother, -, hvault, -⟩ := planned_ok hs hplan
      obtain rfl : root = other := Except.ok.inj (hcanonical.symm.trans hother)
      have hdir := hvault vault hv
      rw [ProjectOptions.resolveBackupDir, hbackups, Option.getD_none] at hdir
      obtain ⟨rest, rfl⟩ := Vault.place_of_snapshotPlace hdir (hplanned.looksLike.root top hroot)
        (fun below => (hplanned.develops.link?_eq _).trans (hlinks below)) hp
      exact Catalog.not_sees_of_backups hskipped rest
    · -- logs have names that are no names of sources
      obtain ⟨hout, herr, hquiet⟩ := hgate plan hplan gate hsome
      refine ⟨fun place hp => ?_, by rwa [FallibleHost.Quiet, hshell]⟩
      rw [Gate.LogPlace, hplanned.develops.destination_eq, hplanned.develops.destination_eq] at hp
      rcases hp with hp | hp
      · exact Gate.not_sees_log (Or.inl rfl) hout hp
      · exact Gate.not_sees_log (Or.inr rfl) herr hp

/-- The files of a plan are those that the default glob lists, unless the command asks for
others. -/
theorem RunOptions.listed_of_planned (honce : world.disk.Once) {plan : RunPlan}
    (hplan : (options.planned world).1 = .ok plan)
    (hsource : options.source = { glob := some defaultGlob } ∨
      options.source = {} ∧ options.project.config = none) :
    (Catalog.skippingBackups { root } (root.child "backups")).listed world.disk
      (.glob defaultGlob) = .ok plan.files := by
  obtain ⟨setup, other, hother, hconfig, -, made, listed, hmade, hrun⟩ := planned_ok hs hplan
  obtain rfl : root = other := Except.ok.inj (hcanonical.symm.trans hother)
  have hglob : options.source.source setup = .glob defaultGlob := by
    rcases hsource with hsource | ⟨hsource, hnone⟩
    · rw [hsource]
      rfl
    · have hdefault : Builtin.configuration.includeGlob = defaultGlob := rfl
      rw [hsource, ← hdefault, ← hconfig hnone]
      rfl
  rw [hglob, ProjectOptions.resolveBackupDir, hbackups, Option.getD_none] at hrun
  obtain ⟨glob, found, hparse, hfound, hfiles⟩ := Catalog.run_listGlob hrun
  have htop : world.disk.find true (Catalog.skippingBackups { root } (root.child "backups")).root =
      .ok (.at top .directory) := by
    rw [Catalog.root_skippingBackups]
    exact hroot
  generalize Catalog.skippingBackups { root } (root.child "backups") = catalog at *
  have hunfolds := hmade catalog.root (catalog.Sees glob top)
  rw [hfiles, ← Catalog.listed_eq honce htop hparse hunfolds.looksLike]
  exact Catalog.listed_glob (hunfolds.looksLike.root top htop) hparse hfound

end Relisting

/-- **A run leaves the listing of the sources as it was**, so that the next one can go on
where it has ended: dry or not, with copies or without, whatever goes wrong.  The copies lie
in their own directory, in which there is no link, and neither do logs end in one; and the
gate neither brings nor takes sources. -/
theorem relisting_stable (world : FallibleHost) (options : RunOptions)
    (hs : world.disk.Solid world.disk.here) (honce : world.disk.Once)
    (hcanonical : world.disk.canonical options.project.root = .ok root)
    (hroot : world.disk.find true root = .ok (.at top .directory))
    (hbackups : options.project.backupDir = none)
    (hlinks : ∀ below, world.disk.link? (top ++ "backups" :: below) = none)
    (hgate : ∀ plan, (options.planned world).1 = .ok plan → ∀ gate, plan.gate? = some gate →
      ¬ world.disk.EndsInLink gate.outLog ∧ ¬ world.disk.EndsInLink gate.errLog ∧
        world.Quiet gate root
          ((Catalog.skippingBackups { root } (root.child "backups")).Sees Glob.sources top)) :
    let catalog := Catalog.skippingBackups { root } (root.child "backups")
    let after := (world.run options.perform.attempt).2.disk
    catalog.listed after (.glob defaultGlob) = catalog.listed world.disk (.glob defaultGlob) ∧
      ∀ plan, (options.planned world).1 = .ok plan →
        options.source = { glob := some defaultGlob } ∨
          options.source = {} ∧ options.project.config = none →
        catalog.listed after (.glob defaultGlob) = .ok plan.files := by
  intro catalog after
  have hname : catalog.root = root := Catalog.root_skippingBackups _ _
  have hskipped : "backups" ∈ catalog.skipped :=
    Catalog.skipped_skippingBackups (by simp)
  have hlooks := RunOptions.looksLike_perform hs hcanonical hroot hbackups hskipped hlinks hgate
  rw [← hname] at hlooks
  have htop : world.disk.find true catalog.root = .ok (.at top .directory) := by rwa [hname]
  have hlisted : catalog.listed after (.glob defaultGlob) =
      catalog.listed world.disk (.glob defaultGlob) :=
    Catalog.listed_eq honce htop Glob.parse_defaultGlob hlooks
  exact ⟨hlisted, fun plan hplan hsource => hlisted.trans
    (RunOptions.listed_of_planned hs hcanonical hroot hbackups honce hplan hsource)⟩

end

/-! ### A project with a directory for its copies -/

namespace Sample

/-- A configuration that gives the length four a token. -/
def configurationText : String :=
  "\x7b\"mappings\":[[\"4\",\"radius\",\"r\"]],\"rule_sets\":\x7b\"f\":[[\"f\",\"radius\",\"(?<value>4)\"]]\x7d\x7d"

/-- A project with one source, and with something at the directory of its copies. -/
def copied (backups : Entry) : FallibleHost where
  host := {
    disk := {
      entries := [
        (["c"], .file configurationText.toUTF8),
        (["p"], .directory),
        (["p", "a.css"], .file "4".toUTF8),
        (["p", "store"], .directory),
        (["p", "backups"], backups)]
      here := ["p"] } }

/-- A run on that project. -/
def runOptions : RunOptions where
  ruleSet := "f"
  project := { root := ⟨"/p"⟩, config := some ⟨"/c"⟩ }

/-- The listing of the sources of that project. -/
def sources (disk : Disk) : Option (List String) :=
  let catalog := Catalog.skippingBackups { root := ⟨"/p"⟩ } ((Path.mk "/p").child "backups")
  (catalog.listed disk (.glob defaultGlob)).toOption.map (·.toList)

/-- What is found on the disk when a run has been carried out. -/
def whenFiled (options : RunOptions) (world : FallibleHost)
    (look : Disk → Option (List String)) : Option (List String) :=
  match options.planned world with
  | (.ok plan, start) => look (plan.filed start).2.disk
  | (.error _, _) => none

theorem of_whenFiled {options : RunOptions} {world : FallibleHost}
    {look : Disk → Option (List String)} {found : List String}
    (h : whenFiled options world look = some found) :
    look (world.run options.perform.attempt).2.disk = some found := by
  have hperformed := options.run_perform world
  unfold whenFiled at h
  generalize options.planned world = planned at h hperformed
  obtain ⟨fault | plan, start⟩ := planned
  · cases h
  · rcases hperformed with ⟨_, hfault, -⟩ | ⟨_, hplan, -, hdisk⟩
    · cases hfault
    · cases hplan
      rw [hdisk]
      exact h

theorem no_links_copied (place : Place) : (copied .directory).disk.link? place = none :=
  Disk.link?_eq_none_of_entries (by simp [copied]) place

/-- **Where copies go to a directory, they are not listed**: nothing else than before. -/
theorem copies_unlisted :
    sources (copied .directory).disk = some ["a.css"] ∧
      sources ((copied .directory).run runOptions.perform.attempt).2.disk = some ["a.css"] := by
  have hlisted : sources (copied .directory).disk = some ["a.css"] := by decide +kernel
  have hends : ∀ path, ¬ (copied .directory).disk.EndsInLink path := by
    rintro path ⟨front, name, place, -, -, hlink⟩
    rw [no_links_copied] at hlink
    cases hlink
  have honce : (copied .directory).disk.Once := ⟨by decide, by decide⟩
  have hstable := @relisting_stable ["p"] ⟨"/p"⟩ (copied .directory) runOptions
    (Disk.solid_singleton rfl) honce rfl rfl rfl (fun _ => no_links_copied _)
    fun plan _ gate _ => ⟨hends _, hends _, fun disk => .refl _ _ _⟩
  refine ⟨hlisted, ?_⟩
  rw [sources, hstable.1]
  exact hlisted

/-- **Where copies go along a link, they are listed**: the directory of the copies leads to
another one in the project. -/
theorem copies_listed :
    sources (copied (.link "store")).disk = some ["a.css"] ∧
      sources ((copied (.link "store")).run runOptions.perform.attempt).2.disk =
        some ["a.css", "store/.pristine/a.css", "store/a.css"] := by
  have hfiled : whenFiled runOptions (copied (.link "store")) sources =
      some ["a.css", "store/.pristine/a.css", "store/a.css"] := by
    decide +kernel
  exact ⟨by decide +kernel, of_whenFiled hfiled⟩

end Sample

end StyleTokens

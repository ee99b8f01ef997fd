/-
What is known of a restore when its command has ended.

A restore is planned, carried out and recorded, in this order.  A plan that fails has
touched nothing.  After that the files are written back, and nothing takes them back when
the record cannot be filed: the command then fails like one that was refused, though it has
changed files and left no record of them.

* `RestoreOptions.planned` — the root and the manifest of a restore, or why it is refused;
* `RestoreOptions.carriedOut`, `RestoreOptions.filed` — the restore and the filing of its
  record;
* `Fault.IsFatal` — the failures that do not tell of a record;
* `RestoreOptions.planned_of_read` — the plan where a manifest is written;
* `RestoreOptions.Ends` — how the command ends;
* `RestoreOptions.ends_recorded` — if the record can be filed, a fatal failure has touched
  nothing.
-/
import StyleTokens.Proofs.Command.Exit
import StyleTokens.Proofs.Vault.Reading

namespace StyleTokens

variable {world : FallibleHost}

/-- A failure with the exit code of requests that cannot be carried out, other than one that
tells where the record of a restore is. -/
def Fault.IsFatal (fault : Fault) : Prop :=
  fault.exitCode = 2 ∧ ∀ code text, fault ≠ .exit code text

/-! ### The command in its parts -/

namespace RestoreOptions

/-- The manifest that is restored. -/
def manifestPath (options : RestoreOptions) (root : Path) : Path :=
  options.manifest.getD (Vault.mk root (options.project.resolveBackupDir root) false).manifestPath

/-- The root of the project and the manifest. -/
def plan (options : RestoreOptions) : Action (Path × Manifest) := do
  let root ← options.project.resolveRoot
  let manifest ← Manifest.load (options.manifestPath root)
  return (root, manifest)

/-- What is to be restored, or why it is refused, and the world after that. -/
def planned (options : RestoreOptions) (world : FallibleHost) :
    Except Fault (Path × Manifest) × FallibleHost :=
  (world.run Console.detect).2.run options.plan.attempt

/-- What became of the entries of a manifest, and the world after it. -/
def carriedOut (manifest : Manifest) (start : FallibleHost) : RestoreResult × FallibleHost :=
  start.run manifest.restore

/-- The place of the record of that, or why it could not be filed, and the world after it. -/
def filed (options : RestoreOptions) (root : Path) (manifest : Manifest) (start : FallibleHost) :
    Except Fault Path × FallibleHost :=
  let done := carriedOut manifest start
  done.2.run ((ReportStore.mk (options.project.resolveOutDir root)).file restoreReportName
    done.1.toJson).attempt

/-- The command once its plan is made. -/
def finish (options : RestoreOptions) (console : Console) (root : Path) (manifest : Manifest) :
    Action Unit := do
  let result ← (manifest.restore : Script _)
  let path ← (ReportStore.mk (options.project.resolveOutDir root)).file restoreReportName
    result.toJson
  result.tell console path
  console.summary (result.members console (options.manifestPath root) path)
  if !result.allRestored then
    throw (.exit 2 (toString result.failedCount ++ " of " ++ toString result.attempted ++
      " backups could not be restored; see " ++ path.text))

/-- How the command ends when the record lies at a path. -/
def verdict (result : RestoreResult) (path : Path) : Except Fault Unit :=
  if result.allRestored then .ok ()
  else .error (.exit 2 (toString result.failedCount ++ " of " ++ toString result.attempted ++
    " backups could not be restored; see " ++ path.text))

end RestoreOptions

theorem tellFailures_obeys (console : Console) (outcomes : List RestoreOutcome) :
    (tellFailures console outcomes).Obeys Request.Reads fun _ => True := by
  induction outcomes with
  | nil => exact .pure trivial
  | cons outcome outcomes ih =>
    unfold tellFailures
    dsimp only
    split
    · exact .bind (Console.line_obeys _ _ _) fun _ _ => ih
    · exact ih

theorem RestoreResult.tell_obeys (result : RestoreResult) (console : Console) (path : Path) :
    (result.tell console path).Obeys Request.Reads fun _ => True :=
  .bind (Console.line_obeys _ _ _) fun _ _ => .bind (Console.line_obeys _ _ _) fun _ _ =>
    .bind (tellFailures_obeys _ _) fun _ _ => Console.line_obeys _ _ _

namespace RestoreOptions

variable (options : RestoreOptions)

/-- The command makes its plan and then goes on with it. -/
theorem run_perform_eq (world : FallibleHost) : world.run options.perform.attempt =
    match options.planned world with
    | (.error fault, after) => (.error fault, after)
    | (.ok (root, manifest), start) =>
      start.run (options.finish (world.run Console.detect).1 root manifest).attempt := by
  rw [planned, plan, perform, FallibleHost.run_action_bind, FallibleHost.run_action_lift,
    FallibleHost.run_action_bind]
  dsimp only
  rw [FallibleHost.run_action_bind]
  rcases (world.run Console.detect).2.run options.project.resolveRoot.attempt with
    ⟨fault | root, found⟩
  · rfl
  · dsimp only
    have hpath : options.manifest.getD
        (Vault.mk root (options.project.resolveBackupDir root) false).manifestPath =
      options.manifestPath root := rfl
    rw [FallibleHost.run_action_bind, FallibleHost.run_action_bind, hpath]
    rcases found.run (Manifest.load (options.manifestPath root)).attempt with
      ⟨fault | manifest, start⟩ <;> rfl

/-- The plan is carried out, and then its record is filed. -/
theorem run_finish (console : Console) (root : Path) (manifest : Manifest) (start : FallibleHost) :
    (start.run (options.finish console root manifest).attempt).1 =
      (options.filed root manifest start).1 >>= verdict (carriedOut manifest start).1 ∧
    (start.run (options.finish console root manifest).attempt).2.disk =
      (options.filed root manifest start).2.disk := by
  have hdone : start.run manifest.restore = carriedOut manifest start := rfl
  have hfiled : (carriedOut manifest start).2.run
      ((ReportStore.mk (options.project.resolveOutDir root)).file restoreReportName
        (carriedOut manifest start).1.toJson).attempt =
    options.filed root manifest start := rfl
  rw [finish, FallibleHost.run_action_bind, FallibleHost.run_action_lift, hdone]
  dsimp only
  rw [FallibleHost.run_action_bind, hfiled]
  rcases options.filed root manifest start with ⟨fault | path, after⟩
  · exact ⟨rfl, rfl⟩
  · dsimp only
    rw [FallibleHost.run_action_bind, FallibleHost.run_action_lift]
    dsimp only
    rw [FallibleHost.run_action_bind, FallibleHost.run_action_lift]
    -- telling about the restore leaves the disk alone
    rw [← ((Console.summary_obeys console _).disk_run _).trans
      ((RestoreResult.tell_obeys (carriedOut manifest start).1 console path).disk_run after)]
    show _ = verdict (carriedOut manifest start).1 path ∧ _
    rw [verdict]
    cases (carriedOut manifest start).1.allRestored <;> exact ⟨rfl, rfl⟩

/-! ### How the command ends -/

/-- What a plan asks, and how it fails. -/
theorem plan_fatal : options.plan.Obeys Request.Reads (fun _ => True) Fault.IsFatal := by
  have hio : ∀ cause, (Fault.io cause).IsFatal := fun _ => ⟨rfl, nofun⟩
  have hmissing : ∀ path, (Fault.missingPath path).IsFatal := fun _ => ⟨rfl, nofun⟩
  have hparse : ∀ text, Outcome (fun _ => True) Fault.IsFatal (Manifest.parse text) := by
    intro text
    unfold Manifest.parse
    cases Json.read text >>= Manifest.ofJson with
    | error detail => exact ⟨rfl, nofun⟩
    | ok manifest => trivial
  have hload : ∀ path, (Manifest.load path).Obeys Request.Reads (fun _ => True) Fault.IsFatal :=
    fun path => .bind (Action.ensurePresent_fails (hmissing _)) fun _ _ =>
      .bind (.ofIo_fails hio (Script.readText_obeys trivial)) fun text _ => .ofExcept (hparse text)
  exact .bind (ProjectOptions.resolveRoot_fails (hmissing _) hio) fun root _ =>
    .bind (hload _) fun _ _ => .pure trivial

/-- A plan touches nothing. -/
theorem disk_planned (world : FallibleHost) : (options.planned world).2.disk = world.disk :=
  (Script.Obeys.disk_run options.plan_fatal _).trans (Console.detect_obeys.disk_run world)

/-- The plan of a restore is the manifest that is written at its place. -/
theorem planned_of_read {root : Path} {manifest : Manifest} {found : FallibleHost}
    (hgrants : world.Grants) (hsized : manifest.Sized)
    (hroot : (world.run Console.detect).2.run options.project.resolveRoot.attempt =
      (.ok root, found))
    (hread : world.disk.read (options.manifestPath root) = .ok manifest.toJson.pretty.toUTF8) :
    options.planned world = (.ok (root, manifest), { found with asked := found.asked + 2 }) := by
  have hdisk : found.disk = world.disk :=
    (options.project.resolveRoot_obeys.disk_of_run hroot).trans
      (Console.detect_obeys.disk_run world)
  have hfound : found.Grants := by
    have hrun := (hgrants.run Console.detect).run options.project.resolveRoot.attempt
    rwa [hroot] at hrun
  rw [planned, plan, FallibleHost.run_action_bind, hroot]
  dsimp only
  rw [FallibleHost.run_action_bind, Manifest.run_load_eq hfound hsized (hdisk ▸ hread)]
  rfl

/-- How the command ends.  Only in the last case are there files that were changed, a
failure, and no record that tells of them. -/
inductive Ends (world : FallibleHost) : Except Fault Unit → Disk → Prop
  /-- Nothing was touched. -/
  | refused {fault : Fault} (planned_eq : (options.planned world).1 = .error fault)
    (fatal : fault.IsFatal) : Ends world (.error fault) world.disk
  /-- The manifest was restored, and there is a new file that tells so. -/
  | recorded {root path : Path} {manifest : Manifest} {later : Disk}
    (planned_eq : (options.planned world).1 = .ok (root, manifest))
    (filed_eq : (options.filed root manifest (options.planned world).2).1 = .ok path)
    (filed : ReportStore.Filed (carriedOut manifest (options.planned world).2).2.disk
      ((carriedOut manifest (options.planned world).2).1.toJson.pretty ++ "\n").toUTF8
      (.ok path) later) :
    Ends world (verdict (carriedOut manifest (options.planned world).2).1 path) later
  /-- The manifest was restored, and its files stay as the restore has written them. -/
  | unrecorded {root : Path} {manifest : Manifest} {fault : Fault} {later : Disk}
    (planned_eq : (options.planned world).1 = .ok (root, manifest))
    (filed_eq : (options.filed root manifest (options.planned world).2).1 = .error fault)
    (fatal : fault.IsFatal)
    (same : ∀ place, later.file? place =
      (carriedOut manifest (options.planned world).2).2.disk.file? place) :
    Ends world (.error fault) later

theorem ends (world : FallibleHost) : options.Ends world (world.run options.perform.attempt).1
    (world.run options.perform.attempt).2.disk := by
  have hsame := options.disk_planned world
  have hfatal : Outcome (fun _ => True) Fault.IsFatal (options.planned world).1 :=
    Script.Obeys.result options.plan_fatal
  have hrun := options.run_perform_eq world
  rcases hplanned : options.planned world with ⟨fault | ⟨root, manifest⟩, start⟩
  · rw [hplanned] at hsame hfatal hrun
    rw [hrun]
    dsimp only at hsame ⊢
    rw [hsame]
    exact .refused (by rw [hplanned]) hfatal
  · have hstart : start = (options.planned world).2 := by rw [hplanned]
    rw [hplanned] at hrun
    dsimp only at hrun
    obtain ⟨hresult, hdisk⟩ := options.run_finish (world.run Console.detect).1 root manifest start
    have hfiled := ReportStore.run_file ⟨options.project.resolveOutDir root⟩ restoreReportName
      (carriedOut manifest start).1.toJson (carriedOut manifest start).2
    have hunfiled : Outcome (fun _ => True) Fault.IsFatal (options.filed root manifest start).1 :=
      Script.Obeys.result (ReportStore.file_fails (fun _ => ⟨rfl, nofun⟩) (fun _ => ⟨rfl, nofun⟩)
        ⟨options.project.resolveOutDir root⟩ restoreReportName _)
    change ReportStore.Filed _ _ (options.filed root manifest start).1
      (options.filed root manifest start).2.disk at hfiled
    rw [hrun, hresult, hdisk]
    cases hended : (options.filed root manifest start).1 with
    | error fault =>
      rw [hended] at hfiled hunfiled
      obtain ⟨⟩ | ⟨hfiles⟩ := hfiled
      subst hstart
      exact .unrecorded (by rw [hplanned]) hended hunfiled hfiles
    | ok path =>
      rw [hended] at hfiled
      subst hstart
      exact .recorded (by rw [hplanned]) hended hfiled

/-- Whatever is planned, its record can be filed once it is carried out. -/
def Records (world : FallibleHost) : Prop :=
  ∀ root manifest, (options.planned world).1 = .ok (root, manifest) →
    ∃ path, (options.filed root manifest (options.planned world).2).1 = .ok path

/-- **A restore is refused, or recorded, or its record is lost.**  If it can be filed, a command
that fails without telling where the record is has touched nothing. -/
theorem ends_recorded (world : FallibleHost) :
    options.Ends world (world.run options.perform.attempt).1
      (world.run options.perform.attempt).2.disk ∧
    (options.Records world → ∀ fault, (world.run options.perform.attempt).1 = .error fault →
      (∀ code text, fault ≠ .exit code text) →
      (world.run options.perform.attempt).2.disk = world.disk) := by
  refine ⟨options.ends world, fun hrecords fault hfault hnone => ?_⟩
  have hends := options.ends world
  rw [hfault] at hends
  generalize (world.run options.perform.attempt).2.disk = later at hends
  generalize hresult : (Except.error fault : Except Fault Unit) = result at hends
  cases hends with
  | refused _ _ => rfl
  | @recorded root path manifest later hplanned hfiled _ =>
    -- the only failure after that tells where the record is
    rw [verdict] at hresult
    split at hresult
    · cases hresult
    · cases hresult
      exact absurd rfl (hnone _ _)
  | @unrecorded root manifest lost later hplanned hfiled _ _ =>
    obtain ⟨path, hpath⟩ := hrecords root manifest hplanned
    rw [hfiled] at hpath
    cases hpath

end RestoreOptions

namespace Sample

/-- A manifest with one entry. -/
def kept : Manifest :=
  ⟨Manifest.schema, "", "/p", [⟨"a", "/p/backups/a", 1, "", none⟩], []⟩

/-- A project with a backup, and a file where its reports are to go. -/
def unfiling : FallibleHost where
  host := {
    disk := {
      entries := [
        (["p"], .directory),
        (["p", "a"], .file "5".toUTF8),
        (["p", "out"], .file "".toUTF8),
        (["p", "backups"], .directory),
        (["p", "backups", "a"], .file "4".toUTF8),
        (["p", "backups", "backup-info.json"], .file kept.toJson.pretty.toUTF8)]
      here := ["p"] } }

/-- A request to restore this backup. -/
def unfiled : RestoreOptions where
  project := { root := ⟨"/p"⟩, outDir := some ⟨"/p/out"⟩ }

/-- Where there is no manifest, the same request fails before anything is touched. -/
theorem unplanned_untouched :
    let options := { unfiled with manifest := some ⟨"/p/none"⟩ }
    (unfiling.run options.perform.attempt).1 = .error (.missingPath "/p/none") ∧
    (unfiling.run options.perform.attempt).2.disk = unfiling.disk := by
  intro options
  have hresult : (unfiling.run options.perform.attempt).1 = .error (.missingPath "/p/none") := by
    decide +kernel
  have hplanned : (options.planned unfiling).1 = .error (.missingPath "/p/none") := by
    decide +kernel
  obtain ⟨-, hsame⟩ := options.ends_recorded unfiling
  refine ⟨hresult, hsame (fun root manifest h => ?_) _ hresult nofun⟩
  rw [hplanned] at h
  cases h

/-- The plan of that request is the manifest that is there. -/
theorem planned_unfiled : unfiled.planned unfiling =
    (.ok (⟨"/p"⟩, kept), { (unfiling.run Console.detect).2 with
      asked := (unfiling.run Console.detect).2.asked + 4 }) := by
  have hread : unfiling.disk.read (unfiled.manifestPath ⟨"/p"⟩) =
      .ok kept.toJson.pretty.toUTF8 :=
    Disk.read_eq_ok_iff.2 ⟨["p", "backups", "backup-info.json"], .file kept.toJson.pretty.toUTF8,
      rfl, Or.inl rfl⟩
  exact unfiled.planned_of_read (fun _ _ => rfl) (by simp [Manifest.Sized, kept, Count.bound])
    rfl hread

/-- The file is restored, and then the command fails like one that was refused: there is no
record, and nothing tells that the file has changed. -/
theorem restored_unrecorded :
    (unfiling.run unfiled.perform.attempt).1 = .error (.io .alreadyExists) ∧
    Command.codeOf (unfiling.run unfiled.perform.attempt).1 = 2 ∧
    unfiling.disk.file? ["p", "a"] = some "5".toUTF8 ∧
    (unfiling.run unfiled.perform.attempt).2.disk.file? ["p", "a"] = some "4".toUTF8 := by
  rw [unfiled.run_perform_eq, planned_unfiled]
  decide +kernel

end Sample

end StyleTokens

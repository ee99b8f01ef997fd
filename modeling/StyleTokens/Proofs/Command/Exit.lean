/-
What the exit code of a run tells.

A run is refused, or its batch is carried out.  A run that is refused has touched no
file.  A batch that was carried out is not taken back, whatever the exit code is: the
code tells whether the report was filed and whether the gate has passed.

* `RunOptions.planned` — the plan of a run, or why it is refused;
* `RunPlan.carriedOut`, `RunPlan.filed` — the batch and the filing of its report;
* `RunPlan.GateFails` — a gate whose job did not end with the code zero;
* `run_perform` — the command in its parts;
* `file?_filed` — files stay as the batch has written them;
* `RunPlan.Tells` — an exit code that tells how a batch went;
* `session_exact` — the exit code of a run.

Design notes: the job of a gate may do to the disk whatever it likes.  That files stay
is therefore said of those that it leaves alone.
-/
import StyleTokens.Proofs.Batch.Backup
import StyleTokens.Proofs.Command.Filing
import StyleTokens.Proofs.Command.Refusal

namespace StyleTokens

variable {world : FallibleHost}

/-! ### The command in its parts -/

/-- The exit code that tells of a result. -/
def Command.codeOf : Except Fault Unit → Int
  | .ok _ => 0
  | .error fault => fault.exitCode

/-- The plan of a run, or why it is refused, and the world after that. -/
def RunOptions.planned (options : RunOptions) (world : FallibleHost) :
    Except Fault RunPlan × FallibleHost :=
  let console := world.run Console.detect
  console.2.run (options.plan console.1).attempt

namespace RunPlan

/-- The report on the batch of a plan, and the world after it. -/
def carriedOut (plan : RunPlan) (start : FallibleHost) : BatchReport × FallibleHost :=
  start.run (plan.batch.run plan.files plan.window)

/-- The place of that report, or why it could not be filed, and the world after it. -/
def filed (plan : RunPlan) (start : FallibleHost) : Except Fault Path × FallibleHost :=
  let done := plan.carriedOut start
  done.2.run ((ReportStore.mk plan.outDir).file done.1.fileName done.1.toJson).attempt

/-- The files of the window. -/
def windowFiles (plan : RunPlan) : List String :=
  plan.window.of plan.files.toList

/-- The gate that is run after the batch. -/
def gate? (plan : RunPlan) : Option Gate :=
  plan.batch.gateAt? plan.window.start (plan.window.start + plan.windowFiles.length)

/-- There is a gate, and its job has not ended with the code zero. -/
def GateFails (plan : RunPlan) (start : FallibleHost) : Prop :=
  ∃ gate, plan.gate? = some gate ∧
    ¬ gate.Passes (start.log (plan.batch.run plan.files plan.window))

/-- How the command ends when a batch was carried out. -/
def verdict (plan : RunPlan) (start : FallibleHost) : Except Fault Unit :=
  match (plan.filed start).1 with
  | .error fault => .error (.reportUnwritten plan.outDir.text fault.message)
  | .ok _ =>
    if (plan.carriedOut start).1.compileSuccess then .ok ()
    else .error (.gateFailed (plan.carriedOut start).1.gate.status.label)

end RunPlan

/-- **The command is refused, or it carries out its plan.** -/
theorem RunOptions.run_perform (options : RunOptions) (world : FallibleHost) :
    (∃ fault, (options.planned world).1 = .error fault ∧
      world.run options.perform.attempt = (.error fault, (options.planned world).2)) ∨
    ∃ plan, (options.planned world).1 = .ok plan ∧
      (world.run options.perform.attempt).1 = plan.verdict (options.planned world).2 ∧
      (world.run options.perform.attempt).2.disk = (plan.filed (options.planned world).2).2.disk := by
  have hplanned : options.planned world =
      (world.run Console.detect).2.run (options.plan (world.run Console.detect).1).attempt := rfl
  unfold perform
  rw [FallibleHost.run_action_bind, FallibleHost.run_action_lift]
  dsimp only
  rw [FallibleHost.run_action_bind, ← hplanned]
  rcases options.planned world with ⟨fault | plan, start⟩
  · exact Or.inl ⟨fault, rfl, rfl⟩
  · refine Or.inr ⟨plan, rfl, ?_⟩
    dsimp only
    rw [FallibleHost.run_action_bind, FallibleHost.run_action_lift]
    dsimp only
    rw [FallibleHost.run_action_bind, FallibleHost.run_action_settle]
    dsimp only
    rw [FallibleHost.run_action_bind, FallibleHost.run_action_lift]
    dsimp only
    rw [FallibleHost.run_action_bind, FallibleHost.run_action_lift]
    dsimp only
    have hdone : start.run (plan.batch.run plan.files plan.window) = plan.carriedOut start := rfl
    have hfiled : (plan.carriedOut start).2.run ((ReportStore.mk plan.outDir).file
        (plan.carriedOut start).1.fileName (plan.carriedOut start).1.toJson).attempt =
      plan.filed start := rfl
    rw [hdone, hfiled]
    -- telling about the batch leaves the disk alone
    have htold (report : BatchReport) (console : Console) (path : Option Path)
        (members : List (String × Json)) (start : FallibleHost) :
        ((start.run (report.tell console path)).2.run (console.summary members)).2.disk =
          start.disk :=
      ((console.summary_obeys members).disk_run _).trans
        ((report.tell_obeys console path).disk_run start)
    rw [← htold (plan.carriedOut start).1 (world.run Console.detect).1 (plan.filed start).1.toOption
      ((plan.carriedOut start).1.members (world.run Console.detect).1 (plan.filed start).1.toOption)
      (plan.filed start).2]
    unfold RunPlan.verdict
    generalize (plan.filed start).1 = result
    cases result with
    | error fault => exact ⟨rfl, rfl⟩
    | ok path => cases (plan.carriedOut start).1.compileSuccess <;> exact ⟨rfl, rfl⟩

/-- The exit code tells how the command has ended. -/
theorem Command.run_session {arguments : List String} {options : RunOptions}
    (h : ofArguments arguments = .ok (.run options)) (world : FallibleHost) :
    (world.run (session arguments)).1 = codeOf (world.run options.perform.attempt).1 ∧
    (world.run (session arguments)).2.disk = (world.run options.perform.attempt).2.disk := by
  unfold session
  rw [h]
  dsimp only
  rw [FallibleHost.run_bind]
  show (FallibleHost.run (world.run options.perform.attempt).2
    (match (world.run options.perform.attempt).1 with | .ok _ => _ | .error _ => _)).1 = _ ∧
    (FallibleHost.run (world.run options.perform.attempt).2
    (match (world.run options.perform.attempt).1 with | .ok _ => _ | .error _ => _)).2.disk = _
  generalize world.run options.perform.attempt = ended
  obtain ⟨result, after⟩ := ended
  cases result with
  | ok _ => exact ⟨rfl, rfl⟩
  | error fault =>
    dsimp only
    rw [FallibleHost.run_bind, FallibleHost.run_bind]
    refine ⟨rfl, ?_⟩
    exact ((Console.failure_obeys _ fault).disk_run _).trans (Console.detect_obeys.disk_run after)

/-! ### The gate -/

theorem Request.Reads.isPlain {request : Request} (h : request.Reads) : Gate.IsPlain request := by
  rintro job rfl
  exact h

theorem Request.Within.isPlain {request : Request} {disk : Disk} {places : Place → Prop}
    (h : request.Within disk places) : Gate.IsPlain request := by
  rintro job rfl
  exact h

/-- The phases of a batch ask no shell. -/
theorem Batch.process_isPlain (batch : Batch) (files : List String) :
    (batch.process files).Obeys Gate.IsPlain fun _ => True := by
  have hprepare : (batch.prepareAll files).Obeys Gate.IsPlain fun _ => True :=
    (batch.prepareAll_obeys files).mono (fun _ h => h.isPlain) fun _ _ => trivial
  cases hdry : batch.dryRun with
  | true =>
    rw [process_eq_of_dry hdry]
    exact .bind hprepare fun _ _ => .pure trivial
  | false =>
    rw [process_eq hdry]
    refine .bind hprepare fun prepared _ => ?_
    refine .bind ((batch.secure_within (.fresh []) prepared).mono (fun _ h => h.isPlain)
      fun _ h => h) fun secured _ => ?_
    exact .bind ((commitAll_within (.fresh []) secured.2).mono (fun _ h => h.isPlain)
      fun _ h => h) fun _ _ => .pure trivial

namespace RunPlan

variable {plan : RunPlan} {start : FallibleHost}

/-- The number of results is that of the files of the window. -/
theorem length_results (plan : RunPlan) (start : FallibleHost) :
    (start.run (plan.batch.process plan.windowFiles)).1.2.length = plan.windowFiles.length := by
  have hpaths : (start.run (plan.batch.process plan.windowFiles)).1.2.map (·.path) =
      plan.windowFiles := (plan.batch.process_obeys _).result
  rw [← List.length_map, hpaths]

/-- A batch in its parts. -/
theorem carriedOut_eq (plan : RunPlan) (start : FallibleHost) :
    plan.carriedOut start =
      let processed := start.run (plan.batch.process plan.windowFiles)
      let verified := processed.2.run (plan.batch.verify plan.window.start
        (plan.window.start + plan.windowFiles.length))
      let stamped := verified.2.reply .now
      (plan.batch.reportOn plan.files plan.window processed.1 verified.1 stamped.1, stamped.2) := by
  have hwindow : plan.window.of plan.files.toList = plan.windowFiles := rfl
  rw [carriedOut, Batch.run_eq, FallibleHost.run_bind, FallibleHost.run_bind,
    FallibleHost.run_bind, hwindow, plan.length_results]
  rfl

/-- **The gate fails exactly if the report says so.** -/
theorem gateFails_iff (plan : RunPlan) (start : FallibleHost) :
    plan.GateFails start ↔ (plan.carriedOut start).1.compileSuccess = false := by
  have hquiet : ∀ gate : Gate, ¬ gate.Passes (start.log (plan.batch.process plan.windowFiles)) :=
    fun gate => Gate.not_passes (plan.batch.process_isPlain _)
  have hlast (gate : Gate) (world : FallibleHost) :
      ¬ gate.Passes (world.log (Script.request .now)) :=
    Gate.not_passes (.request .now (by simp [Gate.IsPlain]))
  have hlog : ∀ gate : Gate, gate.Passes (start.log (plan.batch.run plan.files plan.window)) ↔
      gate.Passes ((start.run (plan.batch.process plan.windowFiles)).2.log
        (plan.batch.verify plan.window.start (plan.window.start + plan.windowFiles.length))) := by
    intro gate
    have hwindow : plan.window.of plan.files.toList = plan.windowFiles := rfl
    rw [Batch.run_eq, FallibleHost.log_bind, hwindow, Gate.passes_append_iff (hquiet gate),
      FallibleHost.log_bind, FallibleHost.log_bind, FallibleHost.log_pure, List.append_nil,
      plan.length_results]
    exact ⟨fun h => (List.mem_append.1 h).resolve_right (hlast gate _),
      fun h => List.mem_append_left _ h⟩
  rw [carriedOut_eq]
  show _ ↔ GateSummary.allowsProgress _ = false
  rw [Bool.eq_false_iff, ne_eq, Batch.allowsProgress_verify_iff]
  simp only [GateFails, hlog, gate?]
  push Not
  rfl

/-- The gate has failed, or its time was over. -/
theorem gateFails_iff_status (plan : RunPlan) (start : FallibleHost) :
    plan.GateFails start ↔ (plan.carriedOut start).1.gate.status = .failed ∨
      (plan.carriedOut start).1.gate.status = .timedOut := by
  have hsuccess : (plan.carriedOut start).1.compileSuccess =
      (plan.carriedOut start).1.gate.allowsProgress := by
    rw [carriedOut_eq]
    rfl
  rw [gateFails_iff, hsuccess, GateSummary.allowsProgress]
  cases (plan.carriedOut start).1.gate.status <;> simp

/-! ### Files stay -/

variable {place : Place} {data : ByteArray}

/-- The gate leaves a file alone: neither does it write its logs there, nor does its job
touch it. -/
def Spares (plan : RunPlan) (start : FallibleHost) (place : Place) (data : ByteArray) : Prop :=
  ∀ gate, plan.gate? = some gate →
    ¬ gate.LogPlace start.disk place ∧ start.Spares gate.job place data

theorem file?_carriedOut (hs : start.disk.Solid start.disk.here)
    (hspares : plan.Spares start place data)
    (hf : (start.run (plan.batch.process plan.windowFiles)).2.disk.file? place = some data) :
    (plan.carriedOut start).2.disk.file? place = some data := by
  have hdev : start.disk.Develops (start.run (plan.batch.process plan.windowFiles)).2.disk :=
    Batch.develops_process hs _
  have hshell := start.shell_run (plan.batch.process plan.windowFiles)
  rw [carriedOut_eq]
  generalize start.run (plan.batch.process plan.windowFiles) = processed at hf hdev hshell
  dsimp only
  rw [FallibleHost.disk_reply_of_reads _ (show Request.Reads .now from trivial)]
  refine Batch.file?_verify (hdev.solid_here hs) (fun gate hgate => ?_) hf
  -- the logs lie where they would have lain at the start
  rw [Gate.LogPlace, hdev.destination_eq, hdev.destination_eq, FallibleHost.Spares, hshell]
  exact hspares gate hgate

/-- Filing the report takes nothing back either. -/
theorem file?_filed (hs : start.disk.Solid start.disk.here) (hspares : plan.Spares start place data)
    (hf : (start.run (plan.batch.process plan.windowFiles)).2.disk.file? place = some data) :
    (plan.filed start).2.disk.file? place = some data :=
  Script.Obeys.file?_run (ReportStore.file_obeys _ _ _) (file?_carriedOut hs hspares hf)

/-! ### The exit code -/

/-- The exit code of a batch that was carried out. -/
def exitCode (plan : RunPlan) (start : FallibleHost) : Int :=
  Command.codeOf (plan.verdict start)

theorem exitCode_eq_three_iff (plan : RunPlan) (start : FallibleHost) :
    plan.exitCode start = 3 ↔ ∃ fault, (plan.filed start).1 = .error fault := by
  rw [exitCode, verdict]
  cases (plan.filed start).1 <;> cases (plan.carriedOut start).1.compileSuccess <;>
    simp [Command.codeOf, Fault.exitCode]

theorem exitCode_eq_one_iff (plan : RunPlan) (start : FallibleHost) :
    plan.exitCode start = 1 ↔
      (∃ path, (plan.filed start).1 = .ok path) ∧ plan.GateFails start := by
  rw [gateFails_iff, exitCode, verdict]
  cases (plan.filed start).1 <;> cases (plan.carriedOut start).1.compileSuccess <;>
    simp [Command.codeOf, Fault.exitCode]

theorem exitCode_eq_zero_iff (plan : RunPlan) (start : FallibleHost) :
    plan.exitCode start = 0 ↔
      (∃ path, (plan.filed start).1 = .ok path) ∧ ¬ plan.GateFails start := by
  rw [gateFails_iff, exitCode, verdict]
  cases (plan.filed start).1 <;> cases (plan.carriedOut start).1.compileSuccess <;>
    simp [Command.codeOf, Fault.exitCode]

/-- An exit code that tells how a batch went, and a disk from which nothing was taken
back. -/
structure Tells (plan : RunPlan) (start : FallibleHost) (code : Int) (after : Disk) : Prop where
  lost_iff : code = 3 ↔ ∃ fault, (plan.filed start).1 = .error fault
  failed_iff : code = 1 ↔ (∃ path, (plan.filed start).1 = .ok path) ∧ plan.GateFails start
  passed_iff : code = 0 ↔ (∃ path, (plan.filed start).1 = .ok path) ∧ ¬ plan.GateFails start
  status_iff : plan.GateFails start ↔ (plan.carriedOut start).1.gate.status = .failed ∨
    (plan.carriedOut start).1.gate.status = .timedOut
  filed : ReportStore.Filed (plan.carriedOut start).2.disk
    ((plan.carriedOut start).1.toJson.pretty ++ "\n").toUTF8 (plan.filed start).1 after
  /-- The report has the outcome of the gate. -/
  compileSuccess_eq : ∃ passed, (plan.carriedOut start).1.toJson.member? "compile_success" =
    some (.bool passed) ∧ (passed = true ↔ ¬ plan.GateFails start)
  /-- Files stay as the batch has written them, unless the gate touches them. -/
  kept : start.disk.Solid start.disk.here → ∀ place data, plan.Spares start place data →
    (start.run (plan.batch.process plan.windowFiles)).2.disk.file? place = some data →
      after.file? place = some data

/-- **The exit code tells how the batch went.** -/
theorem tells_exitCode (plan : RunPlan) (start : FallibleHost) :
    plan.Tells start (plan.exitCode start) (plan.filed start).2.disk where
  lost_iff := plan.exitCode_eq_three_iff start
  failed_iff := plan.exitCode_eq_one_iff start
  passed_iff := plan.exitCode_eq_zero_iff start
  status_iff := plan.gateFails_iff_status start
  filed := ReportStore.run_file _ _ _ _
  compileSuccess_eq := by
    refine ⟨(plan.carriedOut start).1.compileSuccess, rfl, ?_⟩
    rw [gateFails_iff, Bool.not_eq_false]
  kept hs _ _ hspares hf := file?_filed hs hspares hf

end RunPlan

/-- The small project with a gate, whose job takes too long in a world without a shell. -/
example : (RunPlan.mk Sample.gated Sample.files ⟨0, 0⟩ ⟨"/p"⟩).exitCode
    { host := { disk := Sample.disk } } = 1 := by
  decide +kernel

/-- Where no report can be filed, the code tells of that, and not of the gate. -/
example : (RunPlan.mk Sample.gated Sample.files ⟨0, 0⟩ ⟨"/p/a.css"⟩).exitCode
    { host := { disk := Sample.disk } } = 3 := by
  decide +kernel

/-- How a run ends: with a refusal that leaves all files as they are, or with a code that
tells how its batch went. -/
inductive RunOptions.Exits (options : RunOptions) (world : FallibleHost) (code : Int)
    (after : Disk) : Prop
  | refused {fault : Fault} (planned : (options.planned world).1 = .error fault)
    (code_eq : code = 2) (furnished : world.disk.Furnished after (options.OutputPlace world.disk))
    (file?_eq : ∀ place, after.file? place = world.disk.file? place)
  | carriedOut {plan : RunPlan} (planned : (options.planned world).1 = .ok plan)
    (furnished : world.disk.Furnished (options.planned world).2.disk
      (options.OutputPlace world.disk))
    (tells : plan.Tells (options.planned world).2 code after)

/-- A line that was read in two parts was read in both. -/
theorem Usage.exists_of_bind_eq_ok {α β : Type} {result : Except Usage α}
    {next : α → Except Usage β} {value : β} (h : result >>= next = .ok value) :
    ∃ first, result = .ok first ∧ next first = .ok value := by
  cases result with
  | error usage => cases h
  | ok first => exact ⟨first, rfl, h⟩

/-- A line that begins with the name of the command denotes no other one. -/
theorem Command.eq_run_of_ofArguments {rest : List String} {command : Command}
    (h : ofArguments ("run" :: rest) = .ok command) : ∃ options, command = .run options := by
  have hname : ofArguments ("run" :: rest) = ofName "run" rest := rfl
  rw [hname, ofName] at h
  obtain ⟨reading, -, h⟩ := Usage.exists_of_bind_eq_ok h
  obtain ⟨source, -, h⟩ := Usage.exists_of_bind_eq_ok h
  obtain ⟨word, -, h⟩ := Usage.exists_of_bind_eq_ok h
  cases h
  exact ⟨_, rfl⟩

/-- Telling why a line is no command touches nothing. -/
theorem Command.run_session_of_usage {arguments : List String} {usage : Usage}
    (h : ofArguments arguments = .error usage) (world : FallibleHost) :
    (world.run (session arguments)).1 = usage.exitCode ∧
      (world.run (session arguments)).2.disk = world.disk := by
  unfold session
  rw [h]
  dsimp only
  rw [FallibleHost.run_bind]
  exact ⟨rfl, Script.Obeys.disk_run (.request (.say _ _) trivial) world⟩

/-- **A run is refused, or its code tells what has become of its batch.** -/
theorem RunOptions.exits (options : RunOptions) (world : FallibleHost) :
    options.Exits world (Command.codeOf (world.run options.perform.attempt).1)
      (world.run options.perform.attempt).2.disk := by
  have hconsole : (world.run Console.detect).2.disk = world.disk :=
    Console.detect_obeys.disk_run world
  have hplanned : Planned world.disk (options.OutputPlace world.disk) (options.planned world) := by
    have hrun := options.run_plan (world.run Console.detect).1 (world.run Console.detect).2
    rwa [hconsole] at hrun
  rcases options.run_perform world with ⟨fault, hfault, hended⟩ | ⟨plan, hplan, hverdict, hdisk⟩
  · have hrefused := hplanned.refused
    rw [hfault] at hrefused
    rw [hended]
    exact .refused hfault hrefused hplanned.furnished hplanned.furnished.file?_eq
  · rw [hverdict, hdisk]
    exact .carriedOut hplan hplanned.furnished (plan.tells_exitCode _)

/-- **The exit code of a run is exact.**  A line that is no command, and a run that is
refused, leave all files as they are; after anything else the code tells what has become of
the batch. -/
theorem Command.session_exact (world : FallibleHost) (rest : List String) :
    let ended := world.run (session ("run" :: rest))
    (∃ usage, ofArguments ("run" :: rest) = .error usage ∧ ended.1 = usage.exitCode ∧
      ended.2.disk = world.disk) ∨
    ∃ options, ofArguments ("run" :: rest) = .ok (.run options) ∧
      options.Exits world ended.1 ended.2.disk := by
  intro ended
  cases hparse : ofArguments ("run" :: rest) with
  | error usage => exact Or.inl ⟨usage, rfl, run_session_of_usage hparse world⟩
  | ok command =>
    obtain ⟨options, rfl⟩ := eq_run_of_ofArguments hparse
    obtain ⟨hcode, hdisk⟩ := run_session hparse world
    refine Or.inr ⟨options, rfl, ?_⟩
    rw [hcode, hdisk]
    exact options.exits world

/-- A window without room is refused. -/
example : ((Sample.world fun _ => true).run
    (Command.session ["run", "radius", "--batch-size", "0"])).1 = 2 := by
  decide +kernel

end StyleTokens

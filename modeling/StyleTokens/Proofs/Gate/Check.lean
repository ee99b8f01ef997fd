/-
What a gate does to the disk, and what it keeps of its output.

A gate writes its two logs and hands over to its command; what comes after the
command only reads.

* `Gate.job`, `Gate.LogPlace` — what the shell is given, and the places of the logs;
* `Gate.MayLog` — what a gate has to be allowed;
* `summary_asks`, `summary_handsOver` — what a gate asks, in order;
* `Gate.Passes` — a log in which the job has ended with the code zero;
* `allowsProgress_summary_iff` — that is when a gate leaves the way free;
* `seam` — the line break that is put between two logs where there is none;
* `isTail_combinedOutput` — of the two texts with their seam the longest end that fits is kept;
* `outputs_maximal` — so it is for any text, for any two logs, and for those of a gate.
-/
import StyleTokens.Gate.Check
import StyleTokens.Proofs.Text.Boundary
import StyleTokens.Proofs.Text.Decoding
import StyleTokens.Proofs.World.Fallible
import StyleTokens.Proofs.World.Frame

namespace StyleTokens

namespace Gate

variable {gate : Gate} {disk : Disk}

/-- The job that a gate gives to the shell. -/
def job (gate : Gate) : Job where
  command := gate.command
  directory := gate.directory
  limit := gate.limit
  outLog := gate.outLog
  errLog := gate.errLog

/-- The places of the logs. -/
def LogPlace (gate : Gate) (disk : Disk) (place : Place) : Prop :=
  disk.destination gate.outLog = some place ∨ disk.destination gate.errLog = some place

instance (gate : Gate) (disk : Disk) (place : Place) : Decidable (gate.LogPlace disk place) := by
  unfold LogPlace
  infer_instance

theorem output_obeys (gate : Gate) : gate.output.Obeys Request.Reads fun _ => True := by
  unfold output
  exact .ask trivial fun _ => .ask trivial fun _ => .pure trivial

/-- What a gate does when its job has ended. -/
def conclude (gate : Gate) (ended : JobEnd) : Action GateOutcome := do
  let output ← (gate.output : Script _)
  match ended with
  | .exited (some 0) => return .success output
  | .exited code => return .failure code output
  | .overdue => return .timeout gate.limit.seconds output

/-- A gate makes its logs, runs its job and tells how the job has ended. -/
theorem start_eq (gate : Gate) : gate.start = (do
    Action.makeDirectories gate.logDirectory
    Action.ofIo (Script.request (.write gate.outLog .empty))
    Action.ofIo (Script.request (.write gate.errLog .empty))
    Action.ofIo (Script.request (.shell gate.job)) >>= gate.conclude) := rfl

theorem conclude_obeys (gate : Gate) (ended : JobEnd) :
    (gate.conclude ended).Obeys Request.Reads (fun _ => True) fun _ => True := by
  refine .bind (.lift gate.output_obeys) fun output _ => ?_
  split <;> exact .pure trivial

/-- What a gate has to be allowed: to make the directory of its logs, and to empty them. -/
structure MayLog (may : Request → Prop) (gate : Gate) : Prop where
  directory : may (.makeDirectories gate.logDirectory)
  out : may (.write gate.outLog .empty)
  err : may (.write gate.errLog .empty)

theorem mayLog_within (gate : Gate) (disk : Disk) :
    MayLog (Request.Within disk (gate.LogPlace disk)) gate :=
  ⟨trivial, fun _ h => Or.inl h, fun _ h => Or.inr h⟩

theorem start_asks {may : Request → Prop} (h : MayLog may gate) :
    gate.start.attempt.HandsOver may gate.job := by
  have hbind {α : Type} {action : Action α} {next : α → Action GateOutcome}
      (h : action.Obeys may (fun _ => True) fun _ => True)
      (hnext : ∀ value, (next value).attempt.HandsOver may gate.job) :
      (action >>= next).attempt.HandsOver may gate.job := by
    show Script.HandsOver _ _ (action >>= next).run
    rw [ExceptT.run_bind]
    refine Script.HandsOver.bind_obeys h fun result _ => ?_
    cases result with
    | ok value => exact hnext value
    | error fault => exact .done _
  rw [start_eq]
  refine hbind (.ofIo_any (.request (.makeDirectories _) h.directory)) fun _ => ?_
  refine hbind (.ofIo_any (.request (.write _ _) h.out)) fun _ => ?_
  refine hbind (.ofIo_any (.request (.write _ _) h.err)) fun _ => ?_
  refine Script.HandsOver.shell fun reply => ?_
  cases reply with
  | error cause => exact .done trivial
  | ok ended => exact Script.Obeys.mono (gate.conclude_obeys ended) (fun _ h => h) fun _ _ => trivial

/-- **A gate writes its logs, hands over to its command and only reads afterwards.** -/
theorem summary_asks {may : Request → Prop}
    (hreads : ∀ request : Request, request.Reads → may request) (h : MayLog may gate) :
    gate.summary.HandsOver may gate.job := by
  have hcheck : gate.check.HandsOver may gate.job := by
    unfold check
    refine (start_asks h).bind_reads hreads fun outcome => ?_
    cases outcome <;> exact .pure trivial
  unfold summary
  refine .step (hreads _ trivial) fun before => hcheck.bind_reads hreads fun outcome => ?_
  exact .ask trivial fun _ => .pure trivial

/-- A log in which the job has ended with the code zero. -/
def Passes (gate : Gate) (log : List Exchange) : Prop :=
  ⟨.shell gate.job, .ok (.exited (some 0))⟩ ∈ log

/-- An attempt that came to a successful outcome. -/
def Succeeds (result : Except Fault GateOutcome) : Prop :=
  ∃ outcome, result = .ok outcome ∧ outcome.succeeded = true

/-- A request for anything but a shell. -/
def IsPlain (request : Request) : Prop :=
  ∀ job, request ≠ .shell job

variable {world : FallibleHost} {α : Type}

/-- What asks for no shell does not make the gate pass. -/
theorem not_passes {ends : α → Prop} {script : Script α} (h : script.Obeys IsPlain ends) :
    ¬ gate.Passes (world.log script) :=
  fun hp => h.log hp _ rfl

theorem passes_append_iff {log rest : List Exchange} (h : ¬ gate.Passes log) :
    gate.Passes (log ++ rest) ↔ gate.Passes rest :=
  List.mem_append.trans (or_iff_right h)

/-- An action without a shell comes before the job. -/
theorem succeeds_bind_iff {fails : Fault → Prop} {action : Action α}
    {next : α → Action GateOutcome} (h : action.Obeys IsPlain (fun _ => True) fails)
    (hnext : ∀ value (after : FallibleHost), Succeeds (after.run (next value).attempt).1 ↔
      gate.Passes (after.log (next value).attempt)) :
    Succeeds (world.run (action >>= next).attempt).1 ↔
      gate.Passes (world.log (action >>= next).attempt) := by
  rw [FallibleHost.run_action_bind, FallibleHost.log_action_bind,
    passes_append_iff (not_passes h)]
  rcases world.run action.attempt with ⟨fault | value, after⟩
  · simp [Succeeds, Passes]
  · exact hnext value after

theorem output_isPlain (gate : Gate) : gate.output.Obeys IsPlain fun _ => True := by
  unfold output
  exact .ask (by simp [IsPlain]) fun _ => .ask (by simp [IsPlain]) fun _ => .pure trivial

theorem conclude_isPlain (gate : Gate) (ended : JobEnd) :
    (gate.conclude ended).Obeys IsPlain (fun _ => True) fun _ => True := by
  refine .bind (.lift gate.output_isPlain) fun output _ => ?_
  split <;> exact .pure trivial

theorem succeeds_conclude_iff (gate : Gate) (ended : JobEnd) :
    Succeeds (world.run (gate.conclude ended).attempt).1 ↔ ended = .exited (some 0) := by
  unfold conclude
  rw [FallibleHost.run_action_bind, FallibleHost.run_action_lift]
  dsimp only
  split <;> simp_all [Succeeds, GateOutcome.succeeded]

/-- A gate succeeds exactly if its job has ended with the code zero. -/
theorem succeeds_start_iff (gate : Gate) (world : FallibleHost) :
    Succeeds (world.run gate.start.attempt).1 ↔ gate.Passes (world.log gate.start.attempt) := by
  have hplain : ∀ path, IsPlain (.makeDirectories path) ∧ IsPlain (.write path .empty) := by
    simp [IsPlain]
  rw [start_eq]
  refine succeeds_bind_iff (.ofIo_any (.request _ (hplain _).1)) fun _ world => ?_
  refine succeeds_bind_iff (.ofIo_any (.request _ (hplain _).2)) fun _ world => ?_
  refine succeeds_bind_iff (.ofIo_any (.request _ (hplain _).2)) fun _ world => ?_
  -- from here on the reply of the shell decides
  rw [FallibleHost.run_action_bind, FallibleHost.log_action_bind, FallibleHost.run_ofIo,
    FallibleHost.log_ofIo, FallibleHost.run_request, FallibleHost.log_request]
  generalize world.reply (.shell gate.job) = replied
  obtain ⟨result, after⟩ := replied
  cases result with
  | error cause =>
    show Succeeds (.error (.io cause)) ↔ gate.Passes ([⟨.shell gate.job, .error cause⟩] ++ [])
    simp [Succeeds, Passes]
  | ok ended =>
    have hpasses : gate.Passes [⟨.shell gate.job, .ok ended⟩] ↔ ended = .exited (some 0) := by
      simp [Passes, eq_comm]
    show Succeeds (after.run (gate.conclude ended).attempt).1 ↔
      gate.Passes ([⟨.shell gate.job, .ok ended⟩] ++ after.log (gate.conclude ended).attempt)
    rw [succeeds_conclude_iff, ← hpasses]
    exact ⟨fun h => List.mem_append_left _ h, fun h => (List.mem_append.1 h).resolve_right
      (not_passes (gate.conclude_isPlain ended))⟩

/-- **The outcome is a success exactly if the job has ended with the code zero.** -/
theorem succeeded_check_iff (gate : Gate) (world : FallibleHost) :
    (world.run gate.check).1.succeeded = true ↔ gate.Passes (world.log gate.check) := by
  have hstart := succeeds_start_iff gate world
  unfold check
  rw [FallibleHost.run_bind, FallibleHost.log_bind]
  generalize world.run gate.start.attempt = started at hstart
  obtain ⟨result, after⟩ := started
  cases result with
  | error fault =>
    have hfailed : ¬ gate.Passes (world.log gate.start.attempt) := by
      rw [← hstart]
      simp [Succeeds]
    rw [passes_append_iff hfailed]
    simp [GateOutcome.succeeded, Passes]
  | ok outcome =>
    have hdone : outcome.succeeded = true ↔ Succeeds (.ok outcome) := by simp [Succeeds]
    show outcome.succeeded = true ↔ gate.Passes (world.log gate.start.attempt ++ [])
    rw [List.append_nil, ← hstart, hdone]

theorem allowsProgress_ofOutcome (command : String) (milliseconds : Nat) (outcome : GateOutcome) :
    (GateSummary.ofOutcome command milliseconds outcome).allowsProgress = outcome.succeeded := by
  cases outcome <;> rfl

/-- The gate leaves the way free exactly if its job has ended with the code zero. -/
theorem allowsProgress_summary_iff (gate : Gate) (world : FallibleHost) :
    (world.run gate.summary).1.2.allowsProgress = true ↔
      gate.Passes (world.log gate.summary) := by
  have hquiet (world : FallibleHost) : ¬ gate.Passes (world.log (Script.request .uptime)) :=
    not_passes (.request .uptime (by simp [IsPlain]))
  unfold summary
  rw [FallibleHost.run_bind, FallibleHost.run_bind, FallibleHost.run_bind, FallibleHost.log_bind,
    FallibleHost.log_bind, FallibleHost.log_bind, passes_append_iff (hquiet _)]
  show GateSummary.allowsProgress (.ofOutcome _ _ _) = true ↔ _
  rw [allowsProgress_ofOutcome, succeeded_check_iff]
  exact ⟨fun h => List.mem_append_left _ h, fun h => (List.mem_append.1 h).resolve_right fun h =>
    (List.mem_append.1 h).elim (hquiet _) (by simp)⟩

end Gate

/-! ### What is kept of the output -/

open Text Utf8

/-- What stands between two logs: a line break, if neither is empty and the first one does not end
in one. -/
def seam (out err : ByteArray) : List Char :=
  if 0 < out.size ∧ 0 < err.size ∧ out.data.toList.getLast? ≠ some 10 then ['\n'] else []

/-- What the bytes say about it and what their texts say is the same. -/
theorem seam_eq (out err : ByteArray) : seam out err =
    if decodeLossy err = [] || decodeLossy out = [] || (decodeLossy out).getLast? = some '\n'
    then [] else ['\n'] := by
  have hout := decodeLossy_eq_nil_iff out
  have herr := decodeLossy_eq_nil_iff err
  have hlast := getLast?_decodeLossy out
  rw [seam, ← ite_not]
  refine if_congr ?_ rfl rfl
  simp only [Bool.or_eq_true, decide_eq_true_eq, hout, herr, hlast, Nat.pos_iff_ne_zero]
  tauto

/-- **Of two logs the longest end that fits is kept.** -/
theorem isTail_combinedOutput (out err : ByteArray) : IsTail outputLimit
    (decodeLossy out ++ seam out err ++ decodeLossy err) (combinedOutput out err).toList := by
  rw [combinedOutput, String.toList_ofList, seam_eq]
  exact isTail_keepTail _ _

theorem utf8ByteSize_combinedOutput (out err : ByteArray) :
    (combinedOutput out err).utf8ByteSize ≤ outputLimit := by
  rw [utf8ByteSize_eq]
  exact (isTail_combinedOutput out err).fits

/-- **Two texts that fit are kept as they are**, one after the other. -/
theorem combinedOutput_toUTF8 {out err : String}
    (h : out.utf8ByteSize + err.utf8ByteSize < outputLimit) :
    combinedOutput out.toUTF8 err.toUTF8 =
      out ++ String.ofList (seam out.toUTF8 err.toUTF8) ++ err := by
  have hseam : byteLength (seam out.toUTF8 err.toUTF8) ≤ 1 := by
    unfold seam
    split <;> decide
  rw [utf8ByteSize_eq, utf8ByteSize_eq] at h
  have htail := isTail_combinedOutput out.toUTF8 err.toUTF8
  rw [decodeLossy_toUTF8, decodeLossy_toUTF8] at htail
  have hall := htail.longest _ (List.suffix_refl _) (by simp only [byteLength_append]; omega)
  rw [← String.toList_inj, htail.suffix.eq_of_length_le hall.length_le]
  simp

example : combinedOutput "ok".toUTF8 "failed".toUTF8 = "ok\nfailed" := by decide

/-- **A gate keeps the end of its two logs**, as it reads them; one that cannot be read counts as
empty. -/
theorem Gate.run_output (gate : Gate) (world : FallibleHost) : ∃ first second,
    world.log gate.output = [⟨.read gate.outLog, first⟩, ⟨.read gate.errLog, second⟩] ∧
      (world.run gate.output).1 =
        combinedOutput (first.toOption.getD .empty) (second.toOption.getD .empty) :=
  ⟨_, _, rfl, rfl⟩

/-- **What is kept of an output could not be longer.**  Of a text it is the longest end that takes
at most so many bytes: all of it if it fits, and otherwise the first cut that is not within a
character, which loses three bytes at most.  Of two logs it is the longest end of what they say,
with a line break between them when neither is empty and the first does not end in one; and a gate
does so with what it reads from its logs. -/
theorem outputs_maximal (limit : Nat) (text : List Char) (out err : ByteArray) (gate : Gate)
    (world : FallibleHost) :
    (IsTail limit text (keepTail limit text) ∧
      (byteLength text ≤ limit → keepTail limit text = text) ∧
      (limit < byteLength text → limit ≤ byteLength (keepTail limit text) + 3 ∧
        ∃ skipped ≤ 3, IsBoundary text (byteLength text - limit + skipped) ∧
          (∀ k < skipped, ¬ IsBoundary text (byteLength text - limit + k)) ∧
          keepTail limit text = dropBytes (byteLength text - limit + skipped) text)) ∧
    ((combinedOutput out err).utf8ByteSize ≤ outputLimit ∧
      IsTail outputLimit (decodeLossy out ++ seam out err ++ decodeLossy err)
        (combinedOutput out err).toList) ∧
    ∃ first second,
      world.log gate.output = [⟨.read gate.outLog, first⟩, ⟨.read gate.errLog, second⟩] ∧
        (world.run gate.output).1 =
          combinedOutput (first.toOption.getD .empty) (second.toOption.getD .empty) := by
  refine ⟨⟨isTail_keepTail limit text, keepTail_of_le, fun h => ?_⟩,
    ⟨utf8ByteSize_combinedOutput out err, isTail_combinedOutput out err⟩, gate.run_output world⟩
  obtain ⟨skipped, hskipped, hbefore, hcut, hkeep, -⟩ := exists_cut h
  exact ⟨le_byteLength_keepTail h, skipped, hskipped, hcut, hbefore, hkeep⟩

namespace Sample

/-- In two bytes of a text whose second character takes two, only the last character fits. -/
theorem cut_moves_on : keepTail 2 "aéb".toList = ['b'] ∧
    2 < byteLength "aéb".toList ∧ 2 ≤ byteLength (keepTail 2 "aéb".toList) + 3 ∧
    byteLength "aéb".toList ≤ 64 ∧ keepTail 64 "aéb".toList = "aéb".toList := by
  have hlong : 2 < byteLength "aéb".toList := by decide
  have hshort : byteLength "aéb".toList ≤ 64 := by decide
  have htail (limit : Nat) :=
    (outputs_maximal limit "aéb".toList .empty .empty default { host := { disk := default } }).1
  exact ⟨by decide, hlong, ((htail 2).2.2 hlong).1, hshort, (htail 64).2.1 hshort⟩

end Sample

end StyleTokens

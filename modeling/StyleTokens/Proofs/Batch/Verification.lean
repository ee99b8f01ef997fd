/-
The gate of a batch.

* `Batch.gateAt?` — the gate that is run after a window, unless the run is a dry one;
* `Batch.LogPlace` — where it writes;
* `verify_cases` — the last phase runs that gate, if there is one;
* `verify_obeys`, `verify_handsOver` — what the last phase does to the disk;
* `holds_verify`, `file?_verify` — what stays when the job of the gate leaves it alone;
* `allowsProgress_verify_iff` — what it says about the gate.
-/
import StyleTokens.Batch.Run
import StyleTokens.Proofs.Gate.Check

namespace StyleTokens

namespace Batch

/-- The gate that a batch runs after the files from `start` to `stop`. -/
def gateAt? (batch : Batch) (start stop : Nat) : Option Gate :=
  if batch.dryRun then none
  else batch.gate.map fun gate =>
    { gate with
      stem := batch.ruleSet.name ++ "-batch-" ++ toString start ++ "-" ++ toString stop }

/-- The places of the logs of that gate. -/
def LogPlace (batch : Batch) (disk : Disk) (start stop : Nat) (place : Place) : Prop :=
  ∃ gate, batch.gateAt? start stop = some gate ∧ gate.LogPlace disk place

instance (batch : Batch) (disk : Disk) (start stop : Nat) (place : Place) :
    Decidable (batch.LogPlace disk start stop place) :=
  inferInstanceAs (Decidable (∃ gate ∈ batch.gateAt? start stop, gate.LogPlace disk place))

variable {batch : Batch} {start stop : Nat}

/-- The last phase does nothing, or it runs the gate. -/
theorem verify_cases (batch : Batch) (start stop : Nat) :
    (batch.gateAt? start stop = none ∧
      ∃ reason, batch.verify start stop = pure (.skipped reason)) ∨
    ∃ gate, batch.gateAt? start stop = some gate ∧
      batch.verify start stop = (do return (← gate.summary).2) := by
  unfold verify gateAt?
  split
  · exact Or.inl ⟨rfl, _, rfl⟩
  · cases batch.gate with
    | none => exact Or.inl ⟨rfl, _, rfl⟩
    | some gate => exact Or.inr ⟨_, rfl, rfl⟩

theorem verify_asks {may : Request → Prop}
    (hreads : ∀ request : Request, request.Reads → may request) {gate : Gate}
    (h : batch.gateAt? start stop = some gate) (hlog : Gate.MayLog may gate) :
    (batch.verify start stop).HandsOver may gate.job := by
  rcases batch.verify_cases start stop with ⟨hnone, -⟩ | ⟨other, hgate, hv⟩
  · rw [hnone] at h
    cases h
  · obtain rfl : other = gate := Option.some.inj (hgate.symm.trans h)
    rw [hv]
    exact (Gate.summary_asks hreads hlog).bind_reads hreads fun _ => .pure trivial

/-- What becomes of the disk: nothing but the logs is touched, and then the job has it. -/
theorem verify_handsOver (disk : Disk) {gate : Gate} (h : batch.gateAt? start stop = some gate) :
    (batch.verify start stop).HandsOver (Request.Within disk (gate.LogPlace disk)) gate.job :=
  verify_asks (fun _ h => h.within) h (gate.mayLog_within disk)

/-- What the logs do not concern, and no job changes, is there after the last phase. -/
theorem holds_verify {world : FallibleHost} (shows : Disk → Prop)
    (hs : world.disk.Solid world.disk.here)
    (hspares : ∀ gate, batch.gateAt? start stop = some gate →
      (∀ later, world.disk.Touched later (gate.LogPlace world.disk) → shows later) ∧
        ∀ disk, shows disk → shows (world.host.shell gate.job disk).disk)
    (h : shows world.disk) : shows (world.run (batch.verify start stop)).2.disk := by
  rcases batch.verify_cases start stop with ⟨-, reason, hv⟩ | ⟨gate, hgate, -⟩
  · rw [hv]
    exact h
  obtain ⟨hlog, hjob⟩ := hspares gate hgate
  -- until the job takes over, only the logs are touched
  have hended := (batch.verify_handsOver world.disk hgate).run
    (fun state => world.disk.Touched state.disk (gate.LogPlace world.disk) ∧
      state.host.shell = world.host.shell)
    (fun state request hwithin ⟨htouched, hshell⟩ =>
      ⟨Script.Obeys.touched_step hs hwithin htouched, (state.shell_reply request).trans hshell⟩)
    ⟨.refl _ _, rfl⟩
  rcases hended with ⟨htouched, -⟩ | ⟨state, ⟨htouched, hshell⟩, hdisk⟩
  · exact hlog _ htouched
  · rw [hdisk]
    exact FallibleHost.holds_reply_shell (hshell ▸ hjob) (hlog _ htouched)

/-- **The gate takes nothing back**: a file stays that its job leaves alone, unless a log is
written there. -/
theorem file?_verify {world : FallibleHost} {place : Place} {data : ByteArray}
    (hs : world.disk.Solid world.disk.here)
    (hspares : ∀ gate, batch.gateAt? start stop = some gate →
      ¬ gate.LogPlace world.disk place ∧ world.Spares gate.job place data)
    (hf : world.disk.file? place = some data) :
    (world.run (batch.verify start stop)).2.disk.file? place = some data :=
  holds_verify (fun disk => disk.file? place = some data) hs
    (fun gate hgate => ⟨fun _ ht => (ht.file?_eq place (hspares gate hgate).1).trans hf,
      (hspares gate hgate).2⟩) hf

/-- **The gate leaves the way free exactly if its job has ended with the code zero**, or if
there is no gate. -/
theorem allowsProgress_verify_iff (world : FallibleHost) :
    (world.run (batch.verify start stop)).1.allowsProgress = true ↔
      ∀ gate, batch.gateAt? start stop = some gate →
        gate.Passes (world.log (batch.verify start stop)) := by
  rcases batch.verify_cases start stop with ⟨hnone, reason, hv⟩ | ⟨gate, hgate, hv⟩
  · rw [hv, hnone]
    exact iff_of_true rfl fun _ h => nomatch h
  · have hlog : world.log (batch.verify start stop) = world.log gate.summary := by
      rw [hv, FallibleHost.log_bind, FallibleHost.log_pure, List.append_nil]
    rw [hlog, hgate, hv, FallibleHost.run_bind]
    show (world.run gate.summary).1.2.allowsProgress = true ↔ _
    rw [gate.allowsProgress_summary_iff]
    exact ⟨fun h _ hsome => Option.some.inj hsome ▸ h, fun h => h gate rfl⟩

end Batch

end StyleTokens

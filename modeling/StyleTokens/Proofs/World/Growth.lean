/-
What a script can bring.

A script that asks no shell brings files to the paths that it writes, and directories to
the ways there; both are known beforehand.

* `Request.Grows` — a request that writes at some places at most, and brings something to
  certain places at most;
* `mayPut_grows` — a file may be put at a path with the directories on its way;
* `Obeys.grown`, `HandsOver.grown` — a script of such requests lets a disk grow there at
  most, also when it hands over to a shell in the end;
* `FallibleHost.KeepsToLogs` — a job that does nothing to the disk but write its logs.
-/
import StyleTokens.Proofs.Disk.Gap
import StyleTokens.Proofs.Gate.Check
import StyleTokens.Proofs.Vault.Snapshot

namespace StyleTokens

variable {α : Type} {disk start : Disk} {places news : Place → Prop} {world : FallibleHost}
  {path : Path} {job : Job}

/-- A request that hands over to no shell, writes at certain places at most and brings
something to certain places at most. -/
def Request.Grows (disk : Disk) (places news : Place → Prop) : Request → Prop
  | .write path _ | .create path _ =>
    ∀ place, disk.destination path = some place → places place ∧ news place
  | .makeDirectories path => ∀ place, disk.OnTheWay path place → news place
  | .shell _ => False
  | _ => True

theorem Request.Reads.grows {request : Request} (h : request.Reads) :
    request.Grows disk places news := by
  cases request with
  | makeDirectories path => exact h.elim
  | write path data => exact h.elim
  | create path data => exact h.elim
  | shell job => exact h.elim
  | _ => trivial

theorem mayPut_grows (hplaces : ∀ place, disk.destination path = some place → places place)
    (hnews : ∀ place, disk.OnTheWay path place → news place) :
    MayPut (Request.Grows disk places news) path where
  write _ place hp := ⟨hplaces place hp, hnews place ⟨path, .self path, hp⟩⟩
  above _ hparent place hp := by
    obtain ⟨other, hthrough, hd⟩ := hp
    exact hnews place ⟨other, .up hparent hthrough, hd⟩

/-! ### Requests -/

/-- **A request lets the disk grow where it may.** -/
theorem FallibleHost.grown_reply {request : Request} (world : FallibleHost)
    (hs : world.disk.Solid world.disk.here) (h : request.Grows world.disk places news) :
    world.disk.Grown (world.reply request).2.disk places news := by
  rcases world.reply_cases request with ⟨_, _, -, hr⟩ | hr
  · rw [hr]
    exact .refl _ _ _
  · rw [hr]
    show world.host.disk.Grown (world.host.reply request).2.disk places news
    cases request with
    | makeDirectories path =>
      exact Disk.Furnished.grown ((world.host.disk.makeDirectories_spec path).mono h)
    | write path data =>
      rw [Host.reply]
      cases hw : world.host.disk.write path data with
      | error cause => exact .refl _ _ _
      | ok later =>
        exact (Disk.write_grown hs hw).mono (fun place hp => (h place hp).1)
          fun place hp => (h place hp.1).2
    | create path data =>
      rw [Host.reply]
      cases hw : world.host.disk.create path data with
      | error cause => exact .refl _ _ _
      | ok later =>
        exact (Disk.create_grown hw).mono (fun place hp => (h place hp).1)
          fun place hp => (h place hp).2
    | shell job => exact h.elim
    | say stream text => cases stream <;> exact .refl _ _ _
    | _ => exact .refl _ _ _

/-- A disk that has grown grows on with one more request, at places that were known at the
start. -/
theorem FallibleHost.grown_step {request : Request} (hs : start.Solid start.here)
    (h : request.Grows start places news) (hw : start.Grown world.disk places news) :
    start.Grown (world.reply request).2.disk places news := by
  refine hw.trans (world.grown_reply (hw.solid_here hs) ?_)
  cases request with
  | makeDirectories path =>
    rintro place ⟨other, hthrough, hd⟩
    exact h place ⟨other, hthrough, (hw.destination_eq other).symm.trans hd⟩
  | write path data => exact fun place hd => h place ((hw.destination_eq path).symm.trans hd)
  | create path data => exact fun place hd => h place ((hw.destination_eq path).symm.trans hd)
  | shell job => exact h.elim
  | _ => trivial

/-! ### Scripts -/

/-- **A script lets the disk grow where it may.** -/
theorem Script.Obeys.grown {ends : α → Prop} {script : Script α}
    (h : script.Obeys (Request.Grows start places news) ends) (hs : start.Solid start.here)
    (hw : start.Grown world.disk places news) :
    start.Grown (world.run script).2.disk places news :=
  h.run (fun state => start.Grown state.disk places news)
    (fun _ _ hr hstate => FallibleHost.grown_step hs hr hstate) hw

/-- A job that does nothing to any disk but write its logs. -/
def FallibleHost.KeepsToLogs (world : FallibleHost) (job : Job) : Prop :=
  ∀ disk : Disk, disk.Grown (world.host.shell job disk).disk
    (fun place => disk.destination job.outLog = some place ∨
      disk.destination job.errLog = some place)
    fun place => disk.destination job.outLog = some place ∨ disk.destination job.errLog = some place

/-- A script that hands over to such a job lets the disk grow where it may, if the logs are
among those places. -/
theorem Script.HandsOver.grown {script : Script α}
    (h : script.HandsOver (Request.Grows start places news) job) (hjob : world.KeepsToLogs job)
    (hlogs : ∀ place, start.destination job.outLog = some place ∨
      start.destination job.errLog = some place → places place ∧ news place)
    (hs : start.Solid start.here) (hw : start.Grown world.disk places news) :
    start.Grown (world.run script).2.disk places news := by
  have hended := h.run
    (fun state => start.Grown state.disk places news ∧ state.host.shell = world.host.shell)
    (fun state request hr ⟨hstate, hshell⟩ =>
      ⟨FallibleHost.grown_step hs hr hstate, (state.shell_reply request).trans hshell⟩) ⟨hw, rfl⟩
  rcases hended with ⟨hgrown, -⟩ | ⟨state, ⟨hgrown, hshell⟩, hdisk⟩
  · exact hgrown
  · rw [hdisk]
    rcases state.reply_cases (.shell job) with ⟨_, _, -, hr⟩ | hr
    · rw [hr]
      exact hgrown
    · rw [hr]
      have hlater := hjob state.disk
      rw [← hshell] at hlater
      -- the logs are where they were at the start
      have hplace : ∀ place, state.disk.destination job.outLog = some place ∨
          state.disk.destination job.errLog = some place → places place ∧ news place := by
        intro place hp
        rw [hgrown.destination_eq, hgrown.destination_eq] at hp
        exact hlogs place hp
      exact hgrown.trans (hlater.mono (fun place hp => (hplace place hp).1)
        fun place hp => (hplace place hp).2)

theorem Gate.mayLog_grows {gate : Gate}
    (hplaces : ∀ place, gate.LogPlace disk place → places place)
    (hnews : ∀ place, disk.OnTheWay gate.logDirectory place ∨ gate.LogPlace disk place →
      news place) :
    Gate.MayLog (Request.Grows disk places news) gate where
  directory place hp := hnews place (Or.inl hp)
  out place hp := ⟨hplaces place (Or.inl hp), hnews place (Or.inr (Or.inl hp))⟩
  err place hp := ⟨hplaces place (Or.inr hp), hnews place (Or.inr (Or.inr hp))⟩

end StyleTokens

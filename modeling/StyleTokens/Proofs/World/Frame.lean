/-
Which files a script can change.

A script that asks no shell changes only the files that it asks to write, and it is
known beforehand where their paths lead.

* `Request.Within` — a request that writes at certain places at most;
* `Obeys.touched`, `Obeys.touched_states` — a script of such requests touches those
  places at most, at every moment of its run;
* `FallibleHost.Spares`, `holds_reply_shell` — a job that leaves a file, or a property, alone;
* `reply_read_ok`, `reply_write_ok` — what an answer tells about the disk.
-/
import StyleTokens.Proofs.Disk.Change
import StyleTokens.Proofs.World.Conduct

namespace StyleTokens

variable {α : Type} {places : Place → Prop} {world : FallibleHost} {path : Path}
  {data : ByteArray}

/-- A request that hands over to no shell and writes at certain places at most. -/
def Request.Within (disk : Disk) (places : Place → Prop) : Request → Prop
  | .write path _ | .create path _ => ∀ place, disk.destination path = some place → places place
  | .shell _ => False
  | _ => True

theorem Request.Reads.within {request : Request} {disk : Disk} (h : request.Reads) :
    request.Within disk places := by
  cases request with
  | write path data => exact h.elim
  | create path data => exact h.elim
  | shell job => exact h.elim
  | _ => trivial

theorem Request.Within.mono {request : Request} {disk : Disk} {places' : Place → Prop}
    (h : request.Within disk places) (hp : ∀ place, places place → places' place) :
    request.Within disk places' := by
  cases request with
  | write path data => exact fun place hd => hp place (h place hd)
  | create path data => exact fun place hd => hp place (h place hd)
  | shell job => exact h.elim
  | _ => trivial

namespace FallibleHost

/-- **A request touches the places that it may write at.** -/
theorem touched_reply {request : Request} (world : FallibleHost)
    (hs : world.disk.Solid world.disk.here) (h : request.Within world.disk places) :
    world.disk.Touched (world.reply request).2.disk places := by
  rcases world.reply_cases request with ⟨_, _, -, hr⟩ | hr
  · rw [hr]
    exact .refl _ _
  · rw [hr]
    show world.host.disk.Touched (world.host.reply request).2.disk places
    cases request with
    | makeDirectories path => exact (world.host.disk.makeDirectories_spec path).touched
    | write path data =>
      rw [Host.reply]
      cases hw : world.host.disk.write path data with
      | error cause => exact .refl _ _
      | ok later => exact (Disk.write_spec hs hw).1.mono h
    | create path data =>
      rw [Host.reply]
      cases hw : world.host.disk.create path data with
      | error cause => exact .refl _ _
      | ok later => exact (Disk.create_spec hw).1.mono h
    | shell job => exact h.elim
    | say stream text => cases stream <;> exact .refl _ _
    | _ => exact .refl _ _

end FallibleHost

namespace Script.Obeys

variable {ends : α → Prop} {script : Script α}

/-- What a disk has become of which only certain places were touched is so again after
one more request. -/
theorem touched_step {start : Disk} {request : Request} (hs : start.Solid start.here)
    (h : request.Within start places) (hw : start.Touched world.disk places) :
    start.Touched (world.reply request).2.disk places := by
  refine hw.trans (world.touched_reply (hw.solid_here hs) ?_)
  -- paths lead where they led at the start
  cases request with
  | write path data => exact fun place hd => h place ((hw.destination_eq path).symm.trans hd)
  | create path data => exact fun place hd => h place ((hw.destination_eq path).symm.trans hd)
  | shell job => exact h.elim
  | _ => trivial

/-- **A script touches the places that it may write at.** -/
theorem touched (h : script.Obeys (Request.Within world.disk places) ends)
    (hs : world.disk.Solid world.disk.here) :
    world.disk.Touched (world.run script).2.disk places :=
  h.run (fun state => world.disk.Touched state.disk places)
    (fun _ _ hr hw => touched_step hs hr hw) (.refl _ _)

end Script.Obeys

namespace FallibleHost

/-! ### Plans and jobs -/

theorem refusal_reply (world : FallibleHost) (request : Request) :
    (world.reply request).2.refusal = world.refusal := by
  rcases world.reply_cases request with ⟨_, _, -, hr⟩ | hr <;> rw [hr]

/-- The plan of refusals never changes. -/
theorem refusal_run (world : FallibleHost) (script : Script α) :
    (world.run script).2.refusal = world.refusal :=
  (Script.Obeys.any script).run (·.refusal = world.refusal)
    (fun state request _ hs => (state.refusal_reply request).trans hs) rfl

/-- No request changes what the shell makes of a job. -/
theorem shell_reply (world : FallibleHost) (request : Request) :
    (world.reply request).2.host.shell = world.host.shell := by
  rcases world.reply_cases request with ⟨_, _, -, hr⟩ | hr
  · rw [hr]
  · rw [hr]
    show (world.host.reply request).2.shell = world.host.shell
    cases request with
    | write path data =>
      rw [Host.reply]
      cases world.host.disk.write path data <;> rfl
    | create path data =>
      rw [Host.reply]
      cases world.host.disk.create path data <;> rfl
    | say stream text => cases stream <;> rfl
    | _ => rfl

theorem shell_run (world : FallibleHost) (script : Script α) :
    (world.run script).2.host.shell = world.host.shell :=
  (Script.Obeys.any script).run (·.host.shell = world.host.shell)
    (fun state request _ hs => (state.shell_reply request).trans hs) rfl

/-- Whether a job leaves a file alone, whatever else it does to the disk. -/
def Spares (world : FallibleHost) (job : Job) (place : Place) (data : ByteArray) : Prop :=
  ∀ disk : Disk, disk.file? place = some data →
    (world.host.shell job disk).disk.file? place = some data

/-- What a job does not change stays, also when the job is refused. -/
theorem holds_reply_shell {shows : Disk → Prop} {job : Job}
    (h : ∀ disk, shows disk → shows (world.host.shell job disk).disk) (hw : shows world.disk) :
    shows (world.reply (.shell job)).2.disk := by
  rcases world.reply_cases (.shell job) with ⟨_, _, -, hr⟩ | hr
  · rwa [hr]
  · rw [hr]
    exact h _ hw

/-! ### What answers tell -/

/-- An answer that is no refusal is that of the host. -/
theorem reply_of_not_refused {request : Request}
    (h : ∀ cause, request.refusal? cause ≠ some (world.reply request).1) :
    world.reply request = ((world.host.reply request).1,
      { world with host := (world.host.reply request).2, asked := world.asked + 1 }) := by
  rcases world.reply_cases request with ⟨cause, answer, ha, hr⟩ | hr
  · exact absurd (ha.trans (congrArg some (congrArg Prod.fst hr).symm)) (h cause)
  · exact hr

theorem reply_read_ok (h : (world.reply (.read path)).1 = .ok data) :
    world.disk.read path = .ok data := by
  rw [reply_of_not_refused (by simp [h, Request.refusal?])] at h
  exact h

theorem reply_size_ok {size : Nat} (h : (world.reply (.size path)).1 = .ok size) :
    world.disk.size path = .ok size := by
  rw [reply_of_not_refused (by simp [h, Request.refusal?])] at h
  exact h

theorem reply_canonical_ok {root : Path} (h : (world.reply (.canonical path)).1 = .ok root) :
    world.disk.canonical path = .ok root := by
  rw [reply_of_not_refused (by simp [h, Request.refusal?])] at h
  exact h

theorem change_ok {host : Host} {result : Except IoCause Disk}
    (h : (host.change result).1 = .ok ()) : result = .ok (host.change result).2.disk := by
  cases result with
  | error cause => cases h
  | ok later => rfl

theorem change_error {host : Host} {result : Except IoCause Disk} {cause : IoCause}
    (h : (host.change result).1 = .error cause) : (host.change result).2 = host := by
  cases result with
  | error cause => rfl
  | ok later => cases h

/-- A file that was written, as far as the answer tells. -/
theorem reply_write_ok (h : (world.reply (.write path data)).1 = .ok ()) :
    world.disk.write path data = .ok (world.reply (.write path data)).2.disk := by
  have hr : world.reply (.write path data) = _ :=
    reply_of_not_refused (by simp [h, Request.refusal?])
  rw [hr] at h ⊢
  exact change_ok h

theorem reply_create_ok (h : (world.reply (.create path data)).1 = .ok ()) :
    world.disk.create path data = .ok (world.reply (.create path data)).2.disk := by
  have hr : world.reply (.create path data) = _ :=
    reply_of_not_refused (by simp [h, Request.refusal?])
  rw [hr] at h ⊢
  exact change_ok h

/-- Directories that were made, as far as the answer tells. -/
theorem reply_makeDirectories_ok (h : (world.reply (.makeDirectories path)).1 = .ok ()) :
    (world.disk.makeDirectories path).1 = .ok () := by
  have hr : world.reply (.makeDirectories path) = _ :=
    reply_of_not_refused (by simp [h, Request.refusal?])
  rw [hr] at h
  exact h

/-- A file that was not written changes nothing. -/
theorem reply_write_error {cause : IoCause}
    (h : (world.reply (.write path data)).1 = .error cause) :
    (world.reply (.write path data)).2.disk = world.disk := by
  rcases world.reply_cases (.write path data) with ⟨_, _, -, hr⟩ | hr
  · rw [hr]
  · rw [hr] at h ⊢
    exact congrArg Host.disk (change_error h)

theorem reply_create_error {cause : IoCause}
    (h : (world.reply (.create path data)).1 = .error cause) :
    (world.reply (.create path data)).2.disk = world.disk := by
  rcases world.reply_cases (.create path data) with ⟨_, _, -, hr⟩ | hr
  · rw [hr]
  · rw [hr] at h ⊢
    exact congrArg Host.disk (change_error h)

end FallibleHost

end StyleTokens

/-
Worlds that refuse nothing.

What a script asks of such a world it is granted, as far as the disk allows it, so
that it can be told when a script succeeds.

* `FallibleHost.Grants` — nothing is refused;
* `Grants.run_read`, `Grants.run_readText` — what is on the disk can be read;
* `Grants.run_makeDirectories_ok`, `Grants.run_write_ok` — so can be made and written what the
  disk allows;
* `Grants.run_writeFile_of_admits` — so can a file that may be missing, with its directories.
-/
import StyleTokens.Proofs.Disk.Admission
import StyleTokens.Proofs.World.Frame

namespace StyleTokens

variable {α : Type} {world later : FallibleHost} {path : Path} {data : ByteArray}

theorem fromUTF8?_toUTF8 (text : String) : String.fromUTF8? text.toUTF8 = some text :=
  dif_pos text.isValidUTF8

theorem Disk.present_of_read {disk : Disk} (h : disk.read path = .ok data) :
    disk.present path = true := by
  obtain ⟨place, entry, hf, -⟩ := read_eq_ok_iff.1 h
  rw [present, entryAt, hf]
  rfl

namespace FallibleHost

/-- Nothing is refused. -/
def Grants (world : FallibleHost) : Prop :=
  ∀ n request, world.refusal n request = none

namespace Grants

theorem of_eq (h : world.Grants) (hr : later.refusal = world.refusal) : later.Grants := by
  intro n request
  rw [hr]
  exact h n request

theorem run (h : world.Grants) (script : Script α) : (world.run script).2.Grants :=
  h.of_eq (world.refusal_run script)

/-- The host answers every request. -/
theorem reply_eq (h : world.Grants) (request : Request) :
    (world.reply request).1 = (world.host.reply request).1 ∧
      (world.reply request).2.host = (world.host.reply request).2 := by
  rw [FallibleHost.reply, h]
  exact ⟨rfl, rfl⟩

theorem reply_read (h : world.Grants) (path : Path) :
    (world.reply (.read path)).1 = world.disk.read path ∧
      (world.reply (.read path)).2.disk = world.disk :=
  (h.reply_eq (.read path)).imp_right (congrArg Host.disk)

/-- A file that can be read is read. -/
theorem run_read (h : world.Grants) (hr : world.disk.read path = .ok data) :
    ∃ after, world.run (Action.ofIo (Script.request (.read path))).attempt = (.ok data, after) ∧
      after.disk = world.disk ∧ after.Grants := by
  obtain ⟨hreply, hdisk⟩ := h.reply_read path
  refine ⟨(world.reply (.read path)).2, ?_, hdisk, h.run (.request (.read path))⟩
  rw [run_ofIo, run_request, hreply, hr]
  rfl

/-- A request that leaves the host as it is. -/
theorem reply_of_same (h : world.Grants) {request : Request}
    (hsame : (world.host.reply request).2 = world.host) :
    world.reply request =
      ((world.host.reply request).1, { world with asked := world.asked + 1 }) := by
  rw [FallibleHost.reply, h]
  show (_, { world with host := (world.host.reply request).2, asked := world.asked + 1 }) = _
  rw [hsame]

/-- The text of a file that can be read is read, and nothing else happens. -/
theorem run_readText_eq {text : String} (h : world.Grants) (hr : world.disk.read path = .ok data)
    (htext : String.fromUTF8? data = some text) :
    world.run (Action.readText path).attempt =
      (.ok text, { world with asked := world.asked + 1 }) := by
  have hreply : world.reply (.read path) = (.ok data, { world with asked := world.asked + 1 }) := by
    rw [← hr]
    exact h.reply_of_same rfl
  rw [Action.readText, run_ofIo, Script.readText, run_bind, run_request, hreply]
  dsimp only
  rw [htext]
  rfl

theorem run_readText {text : String} (h : world.Grants) (hr : world.disk.read path = .ok data)
    (htext : String.fromUTF8? data = some text) :
    ∃ after, world.run (Action.readText path).attempt = (.ok text, after) ∧
      after.disk = world.disk ∧ after.Grants :=
  ⟨_, h.run_readText_eq hr htext, rfl, h⟩

/-- What is there is found to be there, and nothing else happens. -/
theorem run_ensurePresent_eq (h : world.Grants) (hp : world.disk.present path = true) :
    world.run (Action.ensurePresent path).attempt =
      (.ok (), { world with asked := world.asked + 1 }) := by
  have hreply : world.reply (.present path) = (true, { world with asked := world.asked + 1 }) := by
    rw [← hp]
    exact h.reply_of_same rfl
  rw [Action.ensurePresent, run_action_bind, run_action_lift, run_request, hreply]
  rfl

theorem run_ensurePresent_of_present (h : world.Grants) (hp : world.disk.present path = true) :
    ∃ after, world.run (Action.ensurePresent path).attempt = (.ok (), after) ∧
      after.disk = world.disk ∧ after.Grants :=
  ⟨_, h.run_ensurePresent_eq hp, rfl, h⟩

/-- What can be read is there. -/
theorem run_ensurePresent (h : world.Grants) (hr : world.disk.read path = .ok data) :
    ∃ after, world.run (Action.ensurePresent path).attempt = (.ok (), after) ∧
      after.disk = world.disk ∧ after.Grants :=
  h.run_ensurePresent_of_present (Disk.present_of_read hr)

/-- So is a text that is read after a look whether it is there. -/
theorem run_ensurePresent_readText {text : String} (next : String → Action α) (h : world.Grants)
    (hr : world.disk.read path = .ok data) (htext : String.fromUTF8? data = some text) :
    world.run (do
        Action.ensurePresent path
        next (← Action.readText path)).attempt =
      FallibleHost.run { world with asked := world.asked + 2 } (next text).attempt := by
  have hread := run_readText_eq
    (show Grants { world with asked := world.asked + 1 } from h) hr htext
  rw [run_action_bind, h.run_ensurePresent_eq (Disk.present_of_read hr)]
  dsimp only
  rw [run_action_bind, hread]

/-- Directories are made that can be made. -/
theorem run_makeDirectories_ok (h : world.Grants)
    (hmade : (world.disk.makeDirectories path).1 = .ok ()) :
    ∃ after, world.run (Action.makeDirectories path).attempt = (.ok (), after) ∧
      after.disk = (world.disk.makeDirectories path).2 ∧ after.Grants := by
  obtain ⟨hreply, hhost⟩ := h.reply_eq (.makeDirectories path)
  refine ⟨(world.reply (.makeDirectories path)).2, ?_, congrArg Host.disk hhost,
    h.run (.request (.makeDirectories path))⟩
  rw [Action.makeDirectories, run_ofIo, run_request, hreply]
  show ((world.disk.makeDirectories path).1.mapError Fault.io, _) = _
  rw [hmade]
  rfl

/-- A file is written that can be written. -/
theorem run_write_ok {disk : Disk} (h : world.Grants)
    (hwrite : world.disk.write path data = .ok disk) :
    ∃ after, world.run (Action.ofIo (Script.request (.write path data))).attempt =
      (.ok (), after) ∧ after.Grants := by
  obtain ⟨hreply, -⟩ := h.reply_eq (.write path data)
  refine ⟨(world.reply (.write path data)).2, ?_, h.run (.request (.write path data))⟩
  rw [run_ofIo, run_request, hreply]
  show ((world.host.change (world.disk.write path data)).1.mapError Fault.io, _) = _
  rw [hwrite]
  rfl

/-- **A file that may be missing can be written**, with the directories on its way. -/
theorem run_writeFile_of_admits (h : world.Grants) (hs : world.disk.Solid world.disk.here)
    (ha : Disk.Accepts path) (hends : Disk.EndsWithName path.stretches)
    (hadmits : world.disk.Admits path) (hown : world.disk.Bypasses path path)
    (data : ByteArray) :
    ∃ after, world.run (Action.writeFile path data).attempt = (.ok (), after) ∧ after.Grants := by
  obtain ⟨before, name, hstretches, hn⟩ := id hends
  obtain ⟨parent, hparent⟩ := Path.exists_parent hstretches hn.not_idle
  obtain ⟨hmade, later, hwrite⟩ := hadmits.write hs ha hends hown hparent data
  obtain ⟨middle, hmake, hmiddle, hgrants⟩ := h.run_makeDirectories_ok hmade
  rw [← hmiddle] at hwrite
  obtain ⟨after, hwritten, hgrants⟩ := hgrants.run_write_ok hwrite
  refine ⟨after, ?_, hgrants⟩
  unfold Action.writeFile
  rw [hparent]
  dsimp only
  rw [run_action_bind, hmake]
  exact hwritten

end Grants

end FallibleHost

end StyleTokens

/-
Filing a report.

A report is a new file: it takes no other file's place, and when it cannot be filed,
no file has come or changed.

* `Request.Adds` — requests that change no file that is there;
* `Obeys.file?_run` — files stay when a script asks nothing else;
* `ReportStore.Filed` — what has become of a report that was to be filed;
* `run_file` — filing leaves a new file or none.
-/
import StyleTokens.Proofs.World.Frame
import StyleTokens.ReportStore

namespace StyleTokens

variable {world : FallibleHost} {place : Place} {data : ByteArray}

/-- Whether a request leaves the files alone that are there. -/
def Request.Adds : Request → Prop
  | .write _ _ => False
  | .shell _ => False
  | _ => True

/-- Creating a file changes no file that is there. -/
theorem Disk.file?_create {disk later : Disk} {path : Path} {bytes : ByteArray}
    (h : disk.create path bytes = .ok later) (hf : disk.file? place = some data) :
    later.file? place = some data := by
  obtain ⟨htouched, -, other, hd, hnone⟩ := create_spec h
  rw [htouched.file?_eq place fun hp => ?_, hf]
  obtain rfl : other = place := Option.some.inj (hd.symm.trans hp)
  rw [file?_eq_some_iff, hnone] at hf
  cases hf

theorem FallibleHost.file?_reply {request : Request} (h : request.Adds)
    (hf : world.disk.file? place = some data) :
    (world.reply request).2.disk.file? place = some data := by
  rcases world.reply_cases request with ⟨_, _, -, hr⟩ | hr
  · rwa [hr]
  · rw [hr]
    show (world.host.reply request).2.disk.file? place = some data
    cases request with
    | write path data => exact h.elim
    | shell job => exact h.elim
    | makeDirectories path =>
      exact ((world.disk.makeDirectories_spec path).file?_eq place).trans hf
    | create path bytes =>
      rw [Host.reply]
      cases hc : world.host.disk.create path bytes with
      | error cause => exact hf
      | ok later => exact Disk.file?_create hc hf
    | say stream text => cases stream <;> exact hf
    | _ => exact hf

/-- Files stay when a script only adds to them. -/
theorem Script.Obeys.file?_run {α : Type} {ends : α → Prop} {script : Script α}
    (h : script.Obeys Request.Adds ends) (hf : world.disk.file? place = some data) :
    (world.run script).2.disk.file? place = some data :=
  h.run (·.disk.file? place = some data) (fun _ _ hr hs => FallibleHost.file?_reply hr hs) hf

namespace ReportStore

/-- What has become of a document that was to be filed: there is a new file with it, or no
file has come or changed. -/
inductive Filed (disk : Disk) (data : ByteArray) : Except Fault Path → Disk → Prop
  | new {path : Path} {later : Disk} {place : Place} (read : later.read path = .ok data)
    (destination : disk.destination path = some place) (missing : disk.entry? place = none) :
    Filed disk data (.ok path) later
  | none {fault : Fault} {later : Disk} (same : ∀ place, later.file? place = disk.file? place) :
    Filed disk data (.error fault) later

/-- Directories that were made before make no difference. -/
theorem Filed.of_furnished {disk next later : Disk} {places : Place → Prop}
    {result : Except Fault Path} (h : Filed next data result later)
    (hmade : disk.Furnished next places) : Filed disk data result later := by
  cases h with
  | @new path later place hread hd hnone =>
    refine .new hread ((hmade.develops.destination_eq _).symm.trans hd) ?_
    rcases hmade.entry place with hsame | ⟨-, hmissing, -⟩
    · rwa [hsame] at hnone
    · exact hmissing
  | none hsame => exact .none fun place => (hsame place).trans (hmade.file?_eq place)

theorem fileFrom_fails {fails : Fault → Prop} (hio : ∀ cause, fails (.io cause))
    (hmisuse : ∀ misuse, fails (.invalidArgument misuse)) (store : ReportStore) (name : String)
    (left attempt : Nat) :
    (store.fileFrom name data left attempt).Obeys Request.Adds (fun _ => True) fails := by
  induction left generalizing attempt with
  | zero => exact .throw (hmisuse _)
  | succ left ih =>
    refine .bind (.lift (.request (.create _ _) trivial)) fun reply _ => ?_
    split
    · exact .pure trivial
    · exact ih _
    · exact .throw (hio _)

theorem run_fileFrom (store : ReportStore) (name : String) (left attempt : Nat)
    (world : FallibleHost) :
    Filed world.disk data (world.run (store.fileFrom name data left attempt).attempt).1
      (world.run (store.fileFrom name data left attempt).attempt).2.disk := by
  induction left generalizing attempt world with
  | zero => exact .none fun _ => rfl
  | succ left ih =>
    rw [fileFrom, FallibleHost.run_action_bind, FallibleHost.run_action_lift,
      FallibleHost.run_request]
    have hok := @FallibleHost.reply_create_ok world (store.place name attempt) data
    have herror := @FallibleHost.reply_create_error world (store.place name attempt) data
    generalize world.reply (.create (store.place name attempt) data) = replied at hok herror
    obtain ⟨answer, next⟩ := replied
    dsimp only
    split
    · obtain ⟨-, hread, place, hd, hnone⟩ := Disk.create_spec (hok rfl)
      exact .new hread hd hnone
    · rw [← herror rfl]
      exact ih _ _
    · exact .none fun place => by rw [← herror rfl]; rfl

theorem file_fails {fails : Fault → Prop} (hio : ∀ cause, fails (.io cause))
    (hmisuse : ∀ misuse, fails (.invalidArgument misuse)) (store : ReportStore) (name : String)
    (document : Json) : (store.file name document).Obeys Request.Adds (fun _ => True) fails :=
  .bind (.ofIo_fails hio (.request (.makeDirectories _) trivial)) fun _ _ =>
    fileFrom_fails hio hmisuse store name nameLimit 1

theorem file_obeys (store : ReportStore) (name : String) (document : Json) :
    (store.file name document).Obeys Request.Adds (fun _ => True) fun _ => True :=
  file_fails (fun _ => trivial) (fun _ => trivial) store name document

/-- **Filing leaves a new file with the document, or none.** -/
theorem run_file (store : ReportStore) (name : String) (document : Json) (world : FallibleHost) :
    Filed world.disk (document.pretty ++ "\n").toUTF8
      (world.run (store.file name document).attempt).1
      (world.run (store.file name document).attempt).2.disk := by
  have hmade : world.disk.Furnished (world.reply (.makeDirectories store.directory)).2.disk
      fun _ => True := by
    rcases world.reply_cases (.makeDirectories store.directory) with ⟨_, _, -, hr⟩ | hr
    · rw [hr]
      exact .refl _ _
    · rw [hr]
      exact (world.disk.makeDirectories_spec store.directory).mono fun _ _ => trivial
  rw [file, FallibleHost.run_action_bind, Action.makeDirectories, FallibleHost.run_ofIo,
    FallibleHost.run_request]
  generalize world.reply (.makeDirectories store.directory) = replied at hmade
  obtain ⟨answer, next⟩ := replied
  cases answer with
  | error cause => exact .none hmade.file?_eq
  | ok _ =>
    have hfiled : Filed next.disk (document.pretty ++ "\n").toUTF8 _ _ :=
      store.run_fileFrom name nameLimit 1 next
    exact hfiled.of_furnished hmade

end ReportStore

end StyleTokens

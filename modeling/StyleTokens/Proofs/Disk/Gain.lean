/-
Disks that gain and lose nothing.

Where files are created and directories are made, whatever is there stays as it is.

* `Disk.Gains` — a disk and one that has all that is on it; `Gains.find`, `Gains.read` —
  paths find what they found;
* `Disk.Occupied`, `Disk.Vacant` — whether a file can be created at a path;
* `create_eq_alreadyExists_iff`, `create_of_vacant` — when creating a file succeeds, and
  when it is refused because something is there;
* `Request.Adds.gains` — requests after which a disk has gained.
-/
import StyleTokens.Proofs.Command.Filing
import StyleTokens.Proofs.Disk.Reach

namespace StyleTokens

namespace Disk

variable {disk later last : Disk} {followLast : Bool} {steps links : Nat} {place : Place}
  {pieces : List String} {entry : Entry} {path : Path} {data : ByteArray}

/-- A disk and one that has all that is on it, and may have files and directories
besides. -/
structure Gains (disk later : Disk) : Prop extends disk.Develops later where
  stays : ∀ place entry, disk.entry? place = some entry → later.entry? place = some entry

namespace Gains

theorem refl (disk : Disk) : disk.Gains disk :=
  ⟨.refl disk, fun _ _ h => h⟩

theorem trans (h : disk.Gains later) (h' : later.Gains last) : disk.Gains last :=
  ⟨h.toDevelops.trans h'.toDevelops, fun place entry he =>
    h'.stays place entry (h.stays place entry he)⟩

/-- **What a path finds, it finds later.** -/
theorem find (h : disk.Gains later) (hf : disk.find followLast path = .ok (.at place entry)) :
    later.find followLast path = .ok (.at place entry) :=
  find_of_stays h.here h.stays hf

theorem read (h : disk.Gains later) (hr : disk.read path = .ok data) :
    later.read path = .ok data :=
  read_of_stays h.here h.stays hr

end Gains

theorem Furnished.gains {places : Place → Prop} (h : disk.Furnished later places) :
    disk.Gains later := by
  refine ⟨h.develops, fun place entry he => ?_⟩
  rcases h.entry place with hsame | ⟨-, hnone, -⟩
  · rwa [hsame]
  · rw [he] at hnone
    cases hnone

/-- A file that is created comes to the others. -/
theorem create_gains (h : disk.create path data = .ok later) : disk.Gains later := by
  obtain ⟨-, -, place, hd, hnone⟩ := create_spec h
  refine ⟨(create_spec h).1.toDevelops, fun other entry he => ?_⟩
  refine (create_grown h).entry?_eq he fun hother => ?_
  obtain rfl : place = other := Option.some.inj (hd.symm.trans hother)
  rw [he] at hnone
  cases hnone

/-! ### Paths that are taken -/

/-- Something is at a path, be it a file, a directory, a device or a link. -/
def Occupied (disk : Disk) (path : Path) : Prop :=
  ∃ place entry, disk.find false path = .ok (.at place entry)

/-- Nothing is at a path, in a directory that is there. -/
def Vacant (disk : Disk) (path : Path) : Prop :=
  ∃ parent name, disk.find false path = .ok (.absent parent name)

theorem Occupied.not_vacant (h : disk.Occupied path) : ¬ disk.Vacant path := by
  obtain ⟨place, entry, h⟩ := h
  rintro ⟨parent, name, hv⟩
  rw [h] at hv
  cases hv

/-- **What is taken stays so.** -/
theorem Gains.occupied (h : disk.Gains later) (ho : disk.Occupied path) : later.Occupied path := by
  obtain ⟨place, entry, hf⟩ := ho
  exact ⟨place, entry, h.find hf⟩

/-- A path to something does not lead to where nothing is. -/
theorem Vacant.apart {other : Path} (h : disk.Vacant path) (hr : disk.read other = .ok data) :
    disk.Apart other path := by
  obtain ⟨parent, name, hf⟩ := h
  obtain ⟨place, entry, ho, hentry⟩ := read_eq_ok_iff.1 hr
  intro target hother hpath
  have hlink : ∀ at' target, Found.at place entry ≠ .at at' (.link target) := by
    rcases hentry with rfl | ⟨-, device, rfl⟩ <;> simp
  obtain rfl : place = target := Option.some.inj ((destination_of_find ho hlink).symm.trans hother)
  obtain rfl : parent ++ [name] = place :=
    Option.some.inj ((destination_of_find hf (by simp)).symm.trans hpath)
  have hat := (find_eq_ok_iff.1 ho).2.entry?_at
  rw [(find_eq_ok_iff.1 hf).2.entry?_absent] at hat
  cases hat

/-! ### Creating files -/

/-- No walk ends because something is there. -/
theorem follow_ne_alreadyExists :
    disk.follow followLast steps links place pieces ≠ .error .alreadyExists := by
  induction steps generalizing links place pieces with
  | zero => simp
  | succ steps ih =>
    cases pieces with
    | nil =>
      rw [follow_nil]
      cases disk.entry? place <;> simp
    | cons piece rest =>
      rcases piece_cases piece with hp | rfl | hp | ⟨hp, hu, hl⟩
      · rw [follow_idle hp]
        exact ih
      · rw [follow_up]
        exact ih
      · rw [follow_name hp]
        split
        · split <;> simp
        · exact ih
        · split
          · simp
          · split
            · simp
            · exact ih
        · split <;> simp
      · rw [follow_long hp hu hl]
        simp

theorem find_ne_alreadyExists : disk.find followLast path ≠ .error .alreadyExists := by
  unfold find piecesOf
  split
  · exact fun h => by cases h
  · split
    · exact fun h => by cases h
    · split
      · exact fun h => by cases h
      · exact follow_ne_alreadyExists

/-- A file that is created was missing. -/
theorem vacant_of_create (h : disk.create path data = .ok later) : disk.Vacant path := by
  obtain ⟨parent, name, hf, -⟩ := create_cases h
  exact ⟨parent, name, hf⟩

theorem target_of_withoutSlashes (h : withoutSlashes path = path) :
    disk.target followLast path = disk.find followLast path := by
  unfold target
  simp [h]

/-- **Where nothing is, a file can be created.** -/
theorem create_of_vacant (h : withoutSlashes path = path) (hv : disk.Vacant path)
    (data : ByteArray) : ∃ later, disk.create path data = .ok later := by
  obtain ⟨parent, name, hf⟩ := hv
  refine ⟨disk.set (parent ++ [name]) (.file data), ?_⟩
  rw [create, target_of_withoutSlashes h, hf]
  rfl

/-- **Creating a file is refused for what is there** exactly where something is. -/
theorem create_eq_alreadyExists_iff (h : withoutSlashes path = path) :
    disk.create path data = .error .alreadyExists ↔ disk.Occupied path := by
  rw [create, target_of_withoutSlashes h, Occupied]
  cases hf : disk.find false path with
  | error cause =>
    constructor
    · intro he
      obtain rfl : cause = .alreadyExists := Except.error.inj he
      exact absurd hf find_ne_alreadyExists
    · rintro ⟨_, _, he⟩
      cases he
  | ok found =>
    cases found with
    | «at» place entry => exact ⟨fun _ => ⟨place, entry, rfl⟩, fun _ => rfl⟩
    | absent parent name =>
      constructor
      · intro he
        cases he
      · rintro ⟨_, _, he⟩
        cases he

end Disk

variable {world : FallibleHost} {request : Request}

/-- **After a request that only adds, the disk has gained.** -/
theorem FallibleHost.gains_reply (h : request.Adds) :
    world.disk.Gains (world.reply request).2.disk := by
  rcases world.reply_cases request with ⟨_, _, -, hr⟩ | hr
  · rw [hr]
    exact .refl _
  · rw [hr]
    show world.host.disk.Gains (world.host.reply request).2.disk
    cases request with
    | write path data => exact h.elim
    | shell job => exact h.elim
    | makeDirectories path => exact (world.host.disk.makeDirectories_spec path).gains
    | create path data =>
      rw [Host.reply]
      cases hc : world.host.disk.create path data with
      | error cause => exact .refl _
      | ok later => exact Disk.create_gains hc
    | say stream text => cases stream <;> exact .refl _
    | _ => exact .refl _

/-- So it has after a script that only adds. -/
theorem Script.Obeys.gains {α : Type} {ends : α → Prop} {script : Script α}
    (h : script.Obeys Request.Adds ends) (world : FallibleHost) :
    world.disk.Gains (world.run script).2.disk :=
  h.run (fun state => world.disk.Gains state.disk)
    (fun _ _ hr hs => hs.trans (FallibleHost.gains_reply hr)) (.refl _)

end StyleTokens

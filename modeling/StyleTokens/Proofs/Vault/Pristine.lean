/-
What a snapshot makes of pristine copies.

A pristine copy that is there is left as it is, unless the vault refreshes it.  One that
changes holds the bytes that its file had when the snapshot began, whatever else fails.

* `Disk.fileAt?` — the bytes of the file where a path leads to; `Disk.HasFile` — a path of a
  file with certain bytes;
* `FallibleHost.Consistent` — a world where nobody is refused a look only;
* `Attempted` — a file is written with all its bytes, or left as it is; `attempted_writeFile`,
  `attempted_writeCopy` — so it is when files and copies are written;
* `Vault.Handled` — a pristine copy is left alone or written (`Vault.Renews`), and
  `Vault.Handled.trans` — so it is in two steps;
* `run_snapshotOne_pristine`, `run_copyAll_pristine`, `run_snapshot_pristine` — the pristine
  copies of listed files are left alone or written.

Design notes: a path may lead to a file while a directory on its way is missing.  No one
finds the file there then, but it would be overwritten all the same, so that it matters where
paths lead (`fileAt?`) besides what is found there (`HasFile`).

A snapshot takes a copy that it cannot look at for one that is not there.  If it was allowed
to write it all the same, the first copy would be lost; permissions are not like this
(`FallibleHost.Consistent`).
-/
import StyleTokens.Proofs.Vault.Snapshot

namespace StyleTokens

/-! ### Files where paths lead -/

namespace Disk

variable {disk later : Disk} {places : Place → Prop} {path : Path} {data : ByteArray}

/-- The bytes of the file where a path leads to, whether or not the directories on its way
are there. -/
def fileAt? (disk : Disk) (path : Path) : Option ByteArray :=
  (disk.destination path).bind disk.file?

/-- A path of a file with these bytes. -/
structure HasFile (disk : Disk) (path : Path) (data : ByteArray) : Prop where
  isFile : disk.isFile path = true
  read : disk.read path = .ok data

theorem fileAt?_eq_some_iff : disk.fileAt? path = some data ↔
    ∃ place, disk.destination path = some place ∧ disk.file? place = some data :=
  Option.bind_eq_some_iff

theorem hasFile_iff :
    disk.HasFile path data ↔ disk.isFile path = true ∧ disk.fileAt? path = some data := by
  constructor
  · rintro ⟨hfile, hread⟩
    exact ⟨hfile, fileAt?_eq_some_iff.2 (file?_of_isFile hfile hread)⟩
  · rintro ⟨hfile, hat⟩
    obtain ⟨place, hd, hplace⟩ := fileAt?_eq_some_iff.1 hat
    exact ⟨hfile, read_of_file? hfile hd hplace⟩

/-- What is read where no device is, is the content of a file. -/
theorem hasFile_of_read (hr : disk.read path = .ok data) (hk : disk.Keeps path) :
    disk.HasFile path data := by
  obtain ⟨place, entry, hf, rfl | ⟨-, device, rfl⟩⟩ := read_eq_ok_iff.1 hr
  · exact ⟨isFile_iff.2 ⟨place, data, hf⟩, hr⟩
  · exact absurd (find_eq_ok_iff.1 hf).2.entry?_at
      (hk place device (destination_of_find hf (by simp)))

/-- A device is no file. -/
theorem fileAt?_of_not_keeps (h : ¬ disk.Keeps path) : disk.fileAt? path = none := by
  rw [Option.eq_none_iff_forall_ne_some]
  intro data hat
  obtain ⟨place, hd, hplace⟩ := fileAt?_eq_some_iff.1 hat
  exact h (keeps_of_file? hd hplace)

theorem fileAt?_congr (hd : later.destination path = disk.destination path)
    (hf : ∀ place, disk.destination path = some place → later.file? place = disk.file? place) :
    later.fileAt? path = disk.fileAt? path := by
  rw [fileAt?, fileAt?, hd]
  cases h : disk.destination path with
  | none => rfl
  | some place => exact hf place h

theorem Touched.fileAt?_eq (h : disk.Touched later places)
    (hn : ∀ place, disk.destination path = some place → ¬ places place) :
    later.fileAt? path = disk.fileAt? path :=
  fileAt?_congr (h.destination_eq path) fun place hd => h.file?_eq place (hn place hd)

/-- A file that keeps its bytes is still found. -/
theorem HasFile.develops (h : disk.HasFile path data) (hdev : disk.Develops later)
    (hat : later.fileAt? path = disk.fileAt? path) : later.HasFile path data :=
  hasFile_iff.2 ⟨hdev.isFile h.isFile, hat.trans (hasFile_iff.1 h).2⟩

end Disk

/-! ### Writing, or leaving alone -/

variable {world after : FallibleHost} {path : Path} {data : ByteArray} {file : String}
  {vault : Vault} {files : List String}

namespace FallibleHost

/-- Where it is refused to look for a file, it is refused to write one, for as long as it
takes to try: a directory may be made in between. -/
def Consistent (world : FallibleHost) : Prop :=
  ∀ n path cause, world.refusal n (.isFile path) = some cause → ∀ data,
    world.refusal (n + 1) (.write path data) ≠ none ∧
      world.refusal (n + 2) (.write path data) ≠ none

theorem Consistent.of_eq {later : FallibleHost} (h : world.Consistent)
    (hr : later.refusal = world.refusal) : later.Consistent := by
  unfold Consistent
  rw [hr]
  exact h

theorem asked_reply (world : FallibleHost) (request : Request) :
    (world.reply request).2.asked = world.asked + 1 := by
  rcases world.reply_cases request with ⟨_, _, -, hr⟩ | hr <;> rw [hr]

/-- What was written was not refused. -/
theorem refusal_of_write_ok (h : (world.reply (.write path data)).1 = .ok ()) :
    world.refusal world.asked (.write path data) = none := by
  rw [reply] at h
  cases hr : world.refusal world.asked (.write path data) with
  | none => rfl
  | some cause =>
    rw [hr] at h
    cases h

/-- A file that is not found is not there, or it was refused to look. -/
theorem isFile_of_reply (h : (world.reply (.isFile path)).1 = false) :
    world.disk.isFile path = false ∨
      ∃ cause, world.refusal world.asked (.isFile path) = some cause := by
  cases hr : world.refusal world.asked (.isFile path) with
  | some cause => exact Or.inr ⟨cause, rfl⟩
  | none =>
    rw [reply, hr] at h
    exact Or.inl h

end FallibleHost

/-- A file that was to be written is as it was, or it has all the bytes; then the writing was
not refused. -/
inductive Attempted (world : FallibleHost) (path : Path) (data : ByteArray)
    (ran : Except Fault Unit × FallibleHost) : Prop
  | left (fileAt?_eq : ran.2.disk.fileAt? path = world.disk.fileAt? path)
      (failed : world.disk.Keeps path → ran.1 ≠ .ok ())
  | written (hasFile : ran.2.disk.HasFile path data)
      (granted : world.refusal world.asked (.write path data) = none ∨
        world.refusal (world.asked + 1) (.write path data) = none)

/-- A request to write comes to one of the two. -/
theorem reply_write_cases (hs : world.disk.Solid world.disk.here) (path : Path)
    (data : ByteArray) :
    ((world.reply (.write path data)).2.disk.fileAt? path = world.disk.fileAt? path ∧
      (world.disk.Keeps path → (world.reply (.write path data)).1 ≠ .ok ())) ∨
    ((world.reply (.write path data)).2.disk.HasFile path data ∧
      world.refusal world.asked (.write path data) = none) := by
  cases hr : (world.reply (.write path data)).1 with
  | error cause =>
    rw [FallibleHost.reply_write_error hr]
    exact Or.inl ⟨rfl, fun _ h => nomatch h⟩
  | ok _ =>
    have hwrite := FallibleHost.reply_write_ok hr
    obtain ⟨htouched, hread⟩ := Disk.write_spec hs hwrite
    by_cases hk : world.disk.Keeps path
    · rcases hread with hread | ⟨-, -, hswallowed⟩
      · exact Or.inr ⟨Disk.hasFile_of_read hread (htouched.keeps_iff.2 hk),
          FallibleHost.refusal_of_write_ok hr⟩
      · exact absurd hk hswallowed
    · refine Or.inl ⟨?_, fun h => absurd h hk⟩
      rw [Disk.fileAt?_of_not_keeps hk,
        Disk.fileAt?_of_not_keeps fun h => hk (htouched.keeps_iff.1 h)]

/-- So does writing a file with its directory. -/
theorem attempted_writeFile (hs : world.disk.Solid world.disk.here) (path : Path)
    (data : ByteArray) :
    Attempted world path data (world.run (Action.writeFile path data).attempt) := by
  have hlast (middle : FallibleHost)
      (h : (middle.run (Action.ofIo (Script.request (.write path data))).attempt).1 = .ok ()) :
      (middle.reply (.write path data)).1 = .ok () :=
    congrArg Prod.fst (FallibleHost.run_ofIo_ok (Prod.ext h rfl))
  unfold Action.writeFile
  dsimp only
  split
  · next parent _ =>
    -- making the directory changes no file
    have htouched : world.disk.Touched
        (world.run (Action.makeDirectories parent).attempt).2.disk fun _ => False :=
      Script.Obeys.touched (Action.makeDirectories_obeys _ parent) hs
    have hasked : (world.run (Action.makeDirectories parent).attempt).2.asked =
        world.asked + 1 := by
      rw [Action.makeDirectories, FallibleHost.run_ofIo]
      exact world.asked_reply _
    have hrefusal := world.refusal_run (Action.makeDirectories parent).attempt
    rw [FallibleHost.run_action_bind]
    generalize world.run (Action.makeDirectories parent).attempt = made
      at htouched hasked hrefusal ⊢
    obtain ⟨fault | _, middle⟩ := made
    · exact .left (htouched.fileAt?_eq fun _ _ h => h) fun _ h => nomatch h
    · dsimp only at htouched hasked hrefusal ⊢
      have hs' := htouched.solid_here hs
      have hwrite := hlast middle
      rw [FallibleHost.run_ofIo] at hwrite ⊢
      rcases reply_write_cases hs' path data with ⟨heq, hfailed⟩ | ⟨hfile, hgranted⟩
      · exact .left (heq.trans (htouched.fileAt?_eq fun _ _ h => h))
          fun hk h => hfailed (htouched.keeps_iff.2 hk) (hwrite h)
      · rw [hasked, hrefusal] at hgranted
        exact .written hfile (Or.inr hgranted)
  · have hwrite := hlast world
    rw [FallibleHost.run_ofIo] at hwrite ⊢
    rcases reply_write_cases hs path data with ⟨heq, hfailed⟩ | ⟨hfile, hgranted⟩
    · exact .left heq fun hk h => hfailed hk (hwrite h)
    · exact .written hfile (Or.inl hgranted)

/-- What only reads at its end leaves the disk as it is before, and succeeds only after
success. -/
theorem run_bind_reads {α β : Type} (world : FallibleHost) (action : Action α)
    {next : α → Action β}
    (h : ∀ value, (next value).Obeys Request.Reads (fun _ => True) fun _ => True) :
    (world.run (action >>= next).attempt).2.disk = (world.run action.attempt).2.disk ∧
      ∀ value, (world.run (action >>= next).attempt).1 = .ok value →
        ∃ first, (world.run action.attempt).1 = .ok first := by
  rw [FallibleHost.run_action_bind]
  generalize world.run action.attempt = ran
  obtain ⟨fault | first, middle⟩ := ran
  · exact ⟨rfl, fun _ h => nomatch h⟩
  · exact ⟨Script.Obeys.disk_run (h first) middle, fun _ _ => ⟨first, rfl⟩⟩

namespace Vault

/-- So does writing a copy, whether or not its size is found to be right. -/
theorem attempted_writeCopy (hs : world.disk.Solid world.disk.here) (path : Path)
    (data : ByteArray) (file : String) :
    Attempted world path data (world.run (writeCopy path data file).attempt) := by
  have hsize (_ : Unit) : (do
      let written ← Action.ofIo (Script.request (.size path))
      if written ≠ data.size then throw (.invalidArgument (.shortBackup file written data.size))
      : Action Unit).Obeys Request.Reads (fun _ => True) fun _ => True := by
    refine .bind (.ofIo_any (.request (.size path) trivial)) fun written _ => ?_
    split
    · exact .throw trivial
    · exact .pure trivial
  obtain ⟨hdisk, hok⟩ := run_bind_reads world (Action.writeFile path data) hsize
  unfold writeCopy
  cases attempted_writeFile hs path data with
  | left heq hfailed =>
    refine .left (hdisk ▸ heq) fun hk h => ?_
    obtain ⟨⟨⟩, hfirst⟩ := hok () h
    exact hfailed hk hfirst
  | written hfile hgranted => exact .written (hdisk ▸ hfile) hgranted

/-! ### The pristine copy of a file -/

/-- The pristine copy of a file was written: it has the bytes of the file, and if the vault
does not refresh, it was not there. -/
structure Renews (vault : Vault) (before after : Disk) (file : String) : Prop where
  bytes : ∃ data, before.BytesAt (vault.sourceRoot.under ⟨file⟩) data ∧
    after.HasFile (vault.pristinePath file) data
  missing : vault.refresh = false → before.isFile (vault.pristinePath file) = false

/-- What became of the pristine copy of a file.  It is not left when it is to be refreshed
and an entry for the file was noted. -/
inductive Handled (vault : Vault) (before after : Disk) (file : String) (noted : Prop) : Prop
  | left (fileAt?_eq : after.fileAt? (vault.pristinePath file) =
        before.fileAt? (vault.pristinePath file))
      (failed : vault.refresh = true → before.Keeps (vault.pristinePath file) → ¬ noted)
  | renewed (h : vault.Renews before after file)

/-- When the other copy is there, the pristine one is left as it is, or written. -/
theorem handled_of_copied {start : Disk} (entry : BackupEntry)
    (hdev : start.Develops world.disk) (hs : start.Solid start.here) (hc : world.Consistent)
    (hsame : world.disk.fileAt? (vault.pristinePath file) =
      start.fileAt? (vault.pristinePath file))
    (hsource : start.BytesAt (vault.sourceRoot.under ⟨file⟩) data)
    {ran : Except Fault BackupEntry × FallibleHost}
    (hran : world.run (do
      if vault.refresh || !(← Script.request (.isFile (vault.pristinePath file))) then
        writeCopy (vault.pristinePath file) data file
      return entry : Action BackupEntry).attempt = ran) :
    vault.Handled start ran.2.disk file (∃ entry, ran.1 = .ok entry) := by
  rw [FallibleHost.run_action_bind, FallibleHost.run_action_lift, FallibleHost.run_request] at hran
  dsimp only at hran
  have hdisk := world.disk_reply_of_reads
    (show Request.Reads (.isFile (vault.pristinePath file)) from trivial)
  have hasked := world.asked_reply (.isFile (vault.pristinePath file))
  have hrefusal := world.refusal_reply (.isFile (vault.pristinePath file))
  have hthere := @FallibleHost.isFile_of_reply world (vault.pristinePath file)
  generalize world.reply (.isFile (vault.pristinePath file)) = reply
    at hran hdisk hasked hrefusal hthere
  obtain ⟨there, next⟩ := reply
  dsimp only at hran hdisk hasked hrefusal hthere
  have hs' : next.disk.Solid next.disk.here := hdisk ▸ hdev.solid_here hs
  split at hran
  · next hrenew =>
    have hreads (_ : Unit) : (pure entry : Action BackupEntry).Obeys Request.Reads
        (fun _ => True) fun _ => True := .pure trivial
    obtain ⟨hlast, hok⟩ :=
      run_bind_reads next (writeCopy (vault.pristinePath file) data file) hreads
    rw [hran] at hlast hok
    cases attempted_writeCopy hs' (vault.pristinePath file) data file with
    | left heq hfailed =>
      refine .left ?_ fun _ hk ⟨entry, he⟩ => ?_
      · rw [hlast, heq, hdisk, hsame]
      · obtain ⟨⟨⟩, hfirst⟩ := hok entry he
        exact hfailed (hdisk ▸ hdev.keeps_iff.2 hk) hfirst
    | written hfile hgranted =>
      refine .renewed ⟨⟨data, hsource, hlast ▸ hfile⟩, fun hrefresh => ?_⟩
      rw [hrefresh, Bool.false_or, Bool.not_eq_true'] at hrenew
      rcases hthere hrenew with hmissing | ⟨cause, hrefused⟩
      · exact Bool.eq_false_iff.2 fun hold => Bool.eq_false_iff.1 hmissing (hdev.isFile hold)
      · -- who is refused a look cannot write
        obtain ⟨hfirst, hsecond⟩ := hc _ _ cause hrefused data
        rw [hrefusal, hasked] at hgranted
        exact (hgranted.elim hfirst hsecond).elim
  · next hkeep =>
    rw [Bool.not_eq_true, Bool.or_eq_false_iff] at hkeep
    subst hran
    refine .left ?_ fun hrefresh => absurd (hkeep.1.symm.trans hrefresh) (by simp)
    show next.disk.fileAt? _ = _
    rw [hdisk, hsame]

/-- **The pristine copy of a file is left as it is, or written.** -/
theorem run_snapshotOne_pristine (hs : world.disk.Solid world.disk.here) (hc : world.Consistent)
    (hapart : world.disk.Apart (vault.backupPath file) (vault.pristinePath file)) :
    vault.Handled world.disk (world.run (vault.snapshotOne file).attempt).2.disk file
      (∃ entry, (world.run (vault.snapshotOne file).attempt).1 = .ok entry) := by
  generalize hran : world.run (vault.snapshotOne file).attempt = ran
  unfold snapshotOne at hran
  dsimp only at hran
  rw [FallibleHost.run_action_bind] at hran
  split at hran
  · next data known hread =>
    -- the file is read from the disk as it is at first
    have hreply : world.reply (.read (vault.sourceRoot.under ⟨file⟩)) = (.ok data, known) :=
      FallibleHost.run_ofIo_ok hread
    have hsource := FallibleHost.reply_read_ok (congrArg Prod.fst hreply)
    have hknown : known.disk = world.disk := FallibleHost.disk_eq_of_reply hreply trivial
    have hs' : known.disk.Solid known.disk.here := hknown ▸ hs
    -- the other copy lies elsewhere
    have htouched := touched_writeCopy hs' (vault.backupPath file) data file
    have hrefusal := known.refusal_run (writeCopy (vault.backupPath file) data file).attempt
    rw [hknown] at htouched
    have hsame := htouched.fileAt?_eq fun place hp hp' => hapart place hp' hp
    rw [FallibleHost.run_action_bind] at hran
    split at hran
    · next copied hcopied =>
      rw [hcopied] at htouched hrefusal hsame
      refine handled_of_copied _ htouched.toDevelops hs (hc.of_eq ?_) hsame
        (Disk.bytesAt_of_read hsource) hran
      have hfirst := world.refusal_reply (.read (vault.sourceRoot.under ⟨file⟩))
      rw [hreply] at hfirst
      exact hrefusal.trans hfirst
    · next fault copied hcopied =>
      rw [hcopied] at hsame
      subst hran
      exact .left hsame fun _ _ ⟨_, h⟩ => nomatch h
  · next fault known hread =>
    have hknown : known.disk = world.disk := by
      have hreads : (Action.ofIo (Script.request
          (.read (vault.sourceRoot.under ⟨file⟩)))).Obeys Request.Reads (fun _ => True)
          fun _ => True := .ofIo_any (.request (.read _) trivial)
      have hsame := Script.Obeys.disk_run hreads world
      rwa [hread] at hsame
    subst hran
    exact .left (by rw [hknown]) fun _ _ ⟨_, h⟩ => nomatch h

/-! ### Longer runs -/

section

variable {before middle last : Disk} {noted noted' : Prop}

theorem Handled.mono (h : vault.Handled before last file noted) (hn : noted' → noted) :
    vault.Handled before last file noted' := by
  cases h with
  | left heq hfailed => exact .left heq fun hr hk h => hfailed hr hk (hn h)
  | renewed h => exact .renewed h

/-- What became of a pristine copy in two steps, the first of which has left the file alone. -/
theorem Handled.trans (h : vault.Handled before middle file noted)
    (h' : vault.Handled middle last file noted') (hdev : before.Develops middle)
    (hdev' : middle.Develops last)
    (hbytes : ∀ data, middle.BytesAt (vault.sourceRoot.under ⟨file⟩) data →
      before.BytesAt (vault.sourceRoot.under ⟨file⟩) data) :
    vault.Handled before last file (noted ∨ noted') := by
  cases h with
  | left heq hfailed =>
    cases h' with
    | left heq' hfailed' =>
      refine .left (heq'.trans heq) fun hr hk hnoted => ?_
      exact hnoted.elim (hfailed hr hk) (hfailed' hr (hdev.keeps_iff.2 hk))
    | renewed h' =>
      obtain ⟨data, hsource, hfile⟩ := h'.bytes
      refine .renewed ⟨⟨data, hbytes data hsource, hfile⟩, fun hr => ?_⟩
      exact Bool.eq_false_iff.2 fun hold => Bool.eq_false_iff.1 (h'.missing hr) (hdev.isFile hold)
  | renewed h =>
    cases h' with
    | left heq' _ =>
      obtain ⟨data, hsource, hfile⟩ := h.bytes
      exact .renewed ⟨⟨data, hsource, hfile.develops hdev' heq'⟩, h.missing⟩
    | renewed h' =>
      obtain ⟨data, hsource, hfile⟩ := h'.bytes
      exact .renewed ⟨⟨data, hbytes data hsource, hfile⟩, h.missing⟩

end

/-- The pristine copy of a file lies where nothing else is written when files are copied, and
so does the file itself. -/
structure Shelters (vault : Vault) (disk : Disk) (file : String) (files : List String) : Prop where
  own : disk.Apart (vault.backupPath file) (vault.pristinePath file)
  others : ∀ other ∈ files, other ≠ file → ∀ place,
    disk.destination (vault.pristinePath file) = some place → ¬ vault.CopyPlace disk other place
  source : ∀ other ∈ files, ∀ place,
    disk.destination (vault.sourceRoot.under ⟨file⟩) = some place →
      ¬ vault.CopyPlace disk other place

theorem Shelters.tail {disk later : Disk} {other : String}
    (h : vault.Shelters disk file (other :: files)) (hdev : disk.Develops later) :
    vault.Shelters later file files where
  own := h.own.congr hdev.destination_eq
  others another ha hne place hp hcopy := h.others another (List.mem_cons_of_mem _ ha) hne place
    (hdev.destination_eq _ ▸ hp) ((copyPlace_congr hdev).1 hcopy)
  source another ha place hp hcopy := h.source another (List.mem_cons_of_mem _ ha) place
    (hdev.destination_eq _ ▸ hp) ((copyPlace_congr hdev).1 hcopy)

/-- **So is it when many files are copied**, and as the file was before all of them. -/
theorem run_copyAll_pristine (hs : world.disk.Solid world.disk.here) (hc : world.Consistent)
    (hshelters : vault.Shelters world.disk file files) :
    vault.Handled world.disk (world.run (vault.copyAll files)).2.disk file
      (file ∈ (world.run (vault.copyAll files)).1.1.map (·.file)) := by
  induction files generalizing world with
  | nil => exact .left rfl fun _ _ h => nomatch h
  | cons other others ih =>
    have htouched := Script.Obeys.touched (vault.snapshotOne_obeys world.disk other) hs
    have hrefusal := world.refusal_run (vault.snapshotOne other).attempt
    have hnamed : Outcome (fun entry : BackupEntry => entry.file = other) (fun _ => True)
        (world.run (vault.snapshotOne other).attempt).1 :=
      (vault.snapshotOne_obeys world.disk other).result
    -- the first file may be this one, or another one
    have hfirst : vault.Handled world.disk (world.run (vault.snapshotOne other).attempt).2.disk
        file (other = file ∧
          ∃ entry, (world.run (vault.snapshotOne other).attempt).1 = .ok entry) := by
      by_cases hother : other = file
      · subst hother
        exact (run_snapshotOne_pristine hs hc hshelters.own).mono And.right
      · exact .left (htouched.fileAt?_eq (hshelters.others other List.mem_cons_self hother))
          fun _ _ h => hother h.1
    rw [run_copyAll_cons]
    generalize world.run (vault.snapshotOne other).attempt = first
      at htouched hrefusal hnamed hfirst ⊢
    obtain ⟨copied, next⟩ := first
    dsimp only at htouched hrefusal hnamed hfirst ⊢
    have hdev := htouched.toDevelops
    have hs' := htouched.solid_here hs
    have hrest := ih hs' (hc.of_eq hrefusal) (hshelters.tail hdev)
    have hdev' := (Script.Obeys.touched (vault.copyAll_obeys next.disk others) hs').toDevelops
    refine (hfirst.trans hrest hdev hdev' fun data h => ?_).mono fun hnoted => ?_
    · exact (htouched.bytesAt_iff (hshelters.source other List.mem_cons_self)).1 h
    · cases copied with
      | error fault => exact Or.inr hnoted
      | ok entry =>
        rcases List.mem_cons.1 hnoted with rfl | hnoted
        · exact Or.inl ⟨Eq.symm hnamed, entry, rfl⟩
        · exact Or.inr hnoted

/-- **So is it by a snapshot**, which writes its manifest elsewhere. -/
theorem run_snapshot_pristine (hs : world.disk.Solid world.disk.here) (hc : world.Consistent)
    (hshelters : vault.Shelters world.disk file files)
    (hmanifest : world.disk.Apart vault.manifestPath (vault.pristinePath file)) :
    vault.Handled world.disk (world.run (vault.snapshot files).attempt).2.disk file
      (∃ manifest, (world.run (vault.snapshot files).attempt).1 = .ok manifest ∧
        file ∈ manifest.entries.map (·.file)) := by
  have hcopies := run_copyAll_pristine hs hc hshelters
  have htouched := Script.Obeys.touched (vault.copyAll_obeys world.disk files) hs
  have hs' := htouched.solid_here hs
  have hnow := (world.run (vault.copyAll files)).2.disk_reply_of_reads
    (show Request.Reads .now from trivial)
  -- the manifest is written after all copies, to its own place
  have hsaved : (world.run (vault.copyAll files)).2.disk.Touched
      (world.run (vault.snapshot files).attempt).2.disk
      (world.disk.destination vault.manifestPath = some ·) := by
    unfold snapshot
    rw [FallibleHost.run_action_bind, FallibleHost.run_action_lift]
    dsimp only
    rw [FallibleHost.run_action_bind, FallibleHost.run_action_lift, FallibleHost.run_request]
    dsimp only
    rw [(run_bind_reads _ _ fun _ => .pure trivial).1]
    rw [← hnow] at hs' ⊢
    refine (Script.Obeys.touched (Action.writeFile_obeys fun _ hp => hp) hs').mono
      fun place hp => ?_
    rwa [hnow, htouched.destination_eq] at hp
  have hkept : vault.Handled (world.run (vault.copyAll files)).2.disk
      (world.run (vault.snapshot files).attempt).2.disk file False := by
    refine .left (hsaved.fileAt?_eq fun place hp hp' => ?_) fun _ _ h => h
    exact hmanifest place hp' (htouched.destination_eq _ ▸ hp)
  refine (hcopies.trans hkept htouched.toDevelops hsaved.toDevelops fun data h => ?_).mono
    fun ⟨manifest, hok, hnoted⟩ => Or.inl ?_
  · exact (htouched.bytesAt_iff fun place hp ⟨other, ho, hcopy⟩ =>
      hshelters.source other ho place hp hcopy).1 h
  · obtain ⟨next, -, hentries, -, -⟩ := run_snapshot_ok (Prod.ext hok rfl)
    rwa [hentries] at hnoted

end Vault

end StyleTokens

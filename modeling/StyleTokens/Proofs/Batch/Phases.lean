/-
The phases of a batch and the disk.

* `Batch.Prepared` — what reading a file has shown; `prepareAll_prepared`;
* `Batch.Secured` — what the second phase does; `run_secure`;
* `Batch.Chooses` — a snapshot of the pending files decides which of them go on;
* `Batch.Committed` — how the disk changes when the files that went on are written;
  `commitAll_committed`;
* `Committed.file?_eq`, `Committed.read_fixed` — a file that is reported as fixed has
  its new bytes, and no other place has changed.

Design notes: a write can be refused, so that the relation of the last phase has a
case for it.  Several names may lead to one file, which is then written several times.
-/
import StyleTokens.Proofs.Batch.Prediction

namespace StyleTokens

variable {world : FallibleHost} {batch : Batch} {path : Path}

/-- A text that was read is the text of the bytes of a file. -/
theorem FallibleHost.run_readText_ok {text : String}
    (h : (world.run (Script.readText path)).1 = .ok text) :
    ∃ data, world.disk.read path = .ok data ∧ String.fromUTF8? data = some text := by
  unfold Script.readText at h
  rw [run_bind, run_request] at h
  have hread := @reply_read_ok world path
  generalize (world.reply (.read path)).1 = answer at h hread
  cases answer with
  | error cause => cases h
  | ok data =>
    refine ⟨data, hread rfl, ?_⟩
    dsimp only at h
    split at h
    · next other htext =>
      cases h
      exact htext
    · cases h

/-- Nothing is found in the empty text. -/
theorem Rule.hits_nil (rule : Rule) (claims : List Span) : rule.hits claims [] = [] := by
  rw [hits, List.filterMap_eq_nil_iff]
  intro found _
  cases found.capture? valueGroup with
  | none => rfl
  | some value =>
    have hslice : Text.slice value [] = [] := by simp [Text.slice, Text.dropBytes, Text.takeBytes]
    have hblank : Text.allBlank [] = true := rfl
    simp [hslice, hblank]

/-- The empty text has nothing to replace. -/
theorem RuleSet.replaced_reviseWith_nil (set : RuleSet) (rules : List Rule) (claims : List Span) :
    (set.reviseWith rules ⟨[], claims⟩).replaced = 0 := by
  induction rules generalizing claims with
  | nil => rfl
  | cons rule rules ih =>
    have htext : (set.step rule ⟨[], claims⟩).1.text = [] := by
      simp [step, Rule.hits_nil, splice]
    have htally : (set.step rule ⟨[], claims⟩).2.replaced = 0 := by
      simp [step, Rule.hits_nil, Count.total]
    rw [reviseWith]
    generalize set.step rule ⟨[], claims⟩ = stepped at htext htally ⊢
    obtain ⟨⟨text, later⟩, tally⟩ := stepped
    obtain rfl : text = [] := htext
    have hrest := ih later
    rw [Revision.replaced] at hrest ⊢
    show tally.replaced + Count.total _ = 0
    rw [htally, hrest]

/-- A result of a file that got as far as its write. -/
def FileRecord.ReachedWrite (record : FileRecord) : Prop :=
  record.status = .fixed ∨ ∃ reason, record.error = some ("write failed: " ++ reason)

/-- The bytes that are to be written. -/
def Pending.bytes (write : Pending) : ByteArray :=
  (String.ofList write.revision.text).toUTF8

namespace Batch

/-! ### Reading -/

/-- What reading a file has shown: it is settled, or it is to get the text that the
rules make of it. -/
inductive Prepared (batch : Batch) (disk : Disk) (file : String) : Progress → Prop
  | settled {result : FileResult} (path : result.path = file)
    (early : ¬ result.record.ReachedWrite) : Prepared batch disk file (.settled result)
  | pending {data : ByteArray} {text : String} (size : Nat)
    (read : disk.read (batch.root.under ⟨file⟩) = .ok data)
    (decoded : String.fromUTF8? data = some text)
    (changed : (batch.ruleSet.revise text.toList).changed = true) :
    Prepared batch disk file
      (.pending ⟨file, batch.root.under ⟨file⟩, batch.ruleSet.revise text.toList, size⟩)

/-- What is known of a file that is pending. -/
theorem Prepared.of_pending {disk : Disk} {file : String} {write : Pending}
    (h : batch.Prepared disk file (.pending write)) :
    write.file = file ∧ write.path = batch.root.under ⟨file⟩ ∧ ∃ data text,
      disk.read (batch.root.under ⟨file⟩) = .ok data ∧ String.fromUTF8? data = some text ∧
      data ≠ .empty ∧ write.bytes = (String.ofList (batch.ruleSet.revise text.toList).text).toUTF8 := by
  cases h with
  | @pending data text size read decoded changed =>
    refine ⟨rfl, rfl, data, text, read, decoded, ?_, rfl⟩
    rintro rfl
    have hempty : String.fromUTF8? .empty = some "" := rfl
    obtain rfl : "" = text := Option.some.inj (hempty.symm.trans decoded)
    have hnone := batch.ruleSet.replaced_reviseWith_nil batch.ruleSet.rules []
    simp [RuleSet.revise, Revision.changed, hnone] at changed

/-- A failure of a read or of a backup is no failure of a write. -/
theorem not_reachedWrite_errored {file start reason : String} {size : Nat}
    (h : start = "read failed: " ∨ start = "backup failed: ") :
    ¬ (FileResult.mk file (.errored size (start ++ reason))).record.ReachedWrite := by
  rintro (hfixed | ⟨other, herror⟩)
  · cases hfixed
  · have hchars := congrArg String.toList (Option.some.inj herror)
    rcases h with rfl | rfl <;> simp at hchars

theorem prepare_prepared (world : FallibleHost) (batch : Batch) (file : String) :
    batch.Prepared world.disk file (world.run (batch.prepare file)).1 := by
  unfold prepare
  split
  · refine .settled rfl ?_
    rintro (hfixed | ⟨reason, herror⟩)
    · cases hfixed
    · cases herror
  · rw [FallibleHost.run_bind, FallibleHost.run_bind]
    have hread := @FallibleHost.run_readText_ok
      (world.run (Script.request (.size (batch.root.under ⟨file⟩)))).2 (batch.root.under ⟨file⟩)
    have hdisk : (world.run (Script.request (.size (batch.root.under ⟨file⟩)))).2.disk = world.disk :=
      (Script.Obeys.request (.size (batch.root.under ⟨file⟩)) trivial).disk_run world
    rw [hdisk] at hread
    generalize ((world.run (Script.request (.size (batch.root.under ⟨file⟩)))).2.run
      (Script.readText (batch.root.under ⟨file⟩))).1 = answer at hread
    cases answer with
    | error cause => exact .settled rfl (not_reachedWrite_errored (Or.inl rfl))
    | ok text =>
      obtain ⟨data, hdata, htext⟩ := hread rfl
      dsimp only
      split
      · next hchanged => exact .pending _ hdata htext hchanged
      · refine .settled rfl ?_
        rintro (hfixed | ⟨reason, herror⟩)
        · cases hfixed
        · cases herror

theorem prepareAll_prepared (world : FallibleHost) (batch : Batch) (files : List String) :
    List.Forall₂ (batch.Prepared world.disk) files (world.run (batch.prepareAll files)).1 := by
  induction files generalizing world with
  | nil => exact .nil
  | cons file files ih =>
    have hrest := ih (world.run (batch.prepare file)).2
    rw [(batch.prepare_obeys file).disk_run world] at hrest
    rw [prepareAll, FallibleHost.run_bind, FallibleHost.run_bind]
    exact .cons (batch.prepare_prepared world file) hrest

/-! ### What becomes of prepared files -/

/-- What becomes of a prepared file, when some files are covered: one that is pending is
written if it is covered. -/
inductive Ends (covered : List String) : Progress → FileResult → Prop
  | early (result : FileResult) : Ends covered (.settled result) result
  | uncovered {write : Pending} (h : write.file ∉ covered) (reason : String) :
    Ends covered (.pending write) (write.errored ("backup failed: " ++ reason))
  | fixed {write : Pending} (h : write.file ∈ covered) : Ends covered (.pending write) write.fixed
  | failed {write : Pending} (h : write.file ∈ covered) (reason : String) :
    Ends covered (.pending write) (write.errored ("write failed: " ++ reason))

/-! ### Backing up -/

/-- The names of the files that are pending. -/
def pendingFiles (files : List Progress) : List String :=
  (files.filterMap Progress.pending?).map (·.file)

theorem mem_pendingFiles {files : List Progress} {file : String} :
    file ∈ pendingFiles files ↔ ∃ write, .pending write ∈ files ∧ write.file = file := by
  simp only [pendingFiles, List.mem_map, List.mem_filterMap]
  constructor
  · rintro ⟨write, ⟨progress, hp, hw⟩, rfl⟩
    cases progress with
    | settled result => cases hw
    | pending other =>
      cases hw
      exact ⟨write, hp, rfl⟩
  · rintro ⟨write, hw, rfl⟩
    exact ⟨write, ⟨_, hw, rfl⟩, rfl⟩

theorem pendingFiles_sublist (files : List Progress) :
    (pendingFiles files).Sublist (files.map Progress.path) := by
  induction files with
  | nil => exact .slnil
  | cons progress files ih =>
    cases progress with
    | settled result => exact ih.cons _
    | pending write => exact ih.cons_cons _

/-- What the second phase does when there is a vault: nothing is pending, or a snapshot
decides which files go on. -/
inductive Secured (world : FallibleHost) (vault : Vault) (files : List Progress) :
    (Bool × List Progress) × FallibleHost → Prop
  | nothing (h : pendingFiles files = []) : Secured world vault files ((false, files), world)
  | copied {manifest : Manifest} {after : FallibleHost}
    (h : world.run (vault.snapshot (pendingFiles files)).attempt = (.ok manifest, after)) :
    Secured world vault files ((true, files.map (accept manifest)), after)
  | failed {fault : Fault} {after : FallibleHost}
    (h : world.run (vault.snapshot (pendingFiles files)).attempt = (.error fault, after)) :
    Secured world vault files ((false, files.map (refuse fault)), after)

theorem run_secure {vault : Vault} (hv : batch.vault = some vault) (world : FallibleHost)
    (files : List Progress) : Secured world vault files (world.run (batch.secure files)) := by
  have hfiles : (files.filterMap Progress.pending?).map (·.file) = pendingFiles files := rfl
  unfold secure
  rw [hv]
  dsimp only
  split
  · next hempty =>
    rw [List.isEmpty_iff] at hempty
    exact .nothing (by rw [pendingFiles, hempty, List.map_nil])
  · rw [hfiles, FallibleHost.run_bind]
    rcases h : world.run (vault.snapshot (pendingFiles files)).attempt with ⟨result, after⟩
    cases result with
    | ok manifest => exact .copied h
    | error fault => exact .failed h

theorem run_secure_of_none (hv : batch.vault = none) (world : FallibleHost)
    (files : List Progress) : world.run (batch.secure files) = ((false, files), world) := by
  unfold secure
  rw [hv]
  rfl

/-- How the files that go on are chosen: those that are covered. -/
structure Chooses (files chosen : List Progress) (covered : List String) : Prop where
  sublist : covered.Sublist (pendingFiles files)
  pending : ∀ write, .pending write ∈ chosen → .pending write ∈ files ∧ write.file ∈ covered
  settled : ∀ result, .settled result ∈ chosen →
    .settled result ∈ files ∨ result.record.status = .errored
  ends : ∀ results, List.Forall₂ (Ends covered) chosen results →
    List.Forall₂ (Ends covered) files results

/-- All files go on. -/
theorem chooses_all (files : List Progress) : Chooses files files (pendingFiles files) where
  sublist := .refl _
  pending write hw := ⟨hw, mem_pendingFiles.2 ⟨write, hw, rfl⟩⟩
  settled _ hr := Or.inl hr
  ends _ h := h

/-- The files go on that the manifest of a snapshot names. -/
theorem chooses_accept (files : List Progress) {manifest : Manifest}
    (h : (manifest.entries.map (·.file)).Sublist (pendingFiles files)) :
    Chooses files (files.map (accept manifest)) (manifest.entries.map (·.file)) := by
  have hcovers : ∀ file, manifest.covers file = true ↔ file ∈ manifest.entries.map (·.file) := by
    simp [Manifest.covers]
  refine ⟨h, fun write hw => ?_, fun result hr => ?_, fun results hends => ?_⟩
  · obtain ⟨progress, hp, hw⟩ := List.mem_map.1 hw
    cases progress with
    | settled result => cases hw
    | pending other =>
      rw [accept] at hw
      split at hw
      · next hc =>
        cases hw
        exact ⟨hp, (hcovers _).1 hc⟩
      · cases hw
  · obtain ⟨progress, hp, hr⟩ := List.mem_map.1 hr
    cases progress with
    | settled other =>
      cases hr
      exact Or.inl hp
    | pending write =>
      rw [accept] at hr
      split at hr
      · cases hr
      · cases hr
        exact Or.inr rfl
  · refine (List.forall₂_map_left_iff.1 hends).imp fun progress result hend => ?_
    cases progress with
    | settled other => exact hend
    | pending write =>
      rw [accept] at hend
      split at hend
      · exact hend
      · next hc =>
        cases hend
        exact .uncovered (fun hm => hc ((hcovers _).2 hm)) _

/-- No file goes on when the snapshot has failed. -/
theorem chooses_refuse (files : List Progress) (fault : Fault) :
    Chooses files (files.map (refuse fault)) [] := by
  refine ⟨List.nil_sublist _, fun write hw => ?_, fun result hr => ?_, fun results hends => ?_⟩
  · obtain ⟨progress, -, hw⟩ := List.mem_map.1 hw
    cases progress <;> cases hw
  · obtain ⟨progress, hp, hr⟩ := List.mem_map.1 hr
    cases progress with
    | settled other =>
      cases hr
      exact Or.inl hp
    | pending write =>
      cases hr
      exact Or.inr rfl
  · refine (List.forall₂_map_left_iff.1 hends).imp fun progress result hend => ?_
    cases progress with
    | settled other => exact hend
    | pending write =>
      cases hend
      exact .uncovered (by simp) _

/-- The second phase asks what a snapshot asks. -/
theorem secure_asks {may : Request → Prop} {files : List Progress}
    (h : ∀ vault, batch.vault = some vault →
      (vault.snapshot (pendingFiles files)).attempt.Obeys may fun _ => True) :
    (batch.secure files).Obeys may fun _ => True := by
  unfold secure
  split
  · exact .pure trivial
  · next vault hv =>
    dsimp only
    split
    · exact .pure trivial
    · refine .bind (h vault hv) fun snapshot _ => ?_
      cases snapshot with
      | ok manifest => exact .pure trivial
      | error fault => exact .pure trivial

/-- The second phase writes at the places of a snapshot. -/
theorem secure_within (batch : Batch) (disk : Disk) (files : List Progress) :
    (batch.secure files).Obeys (Request.Within disk fun place =>
      ∃ vault, batch.vault = some vault ∧ vault.SnapshotPlace disk (pendingFiles files) place)
      fun _ => True :=
  secure_asks fun vault hv => Script.Obeys.mono (vault.snapshot_obeys disk (pendingFiles files))
    (fun _ h => h.mono fun _ hp => ⟨vault, hv, hp⟩) fun _ _ => trivial

/-! ### Writing -/

/-- How the disk changes when files are written one after another. -/
inductive Committed : Disk → List Progress → List FileResult → Disk → Prop
  | nil (disk : Disk) : Committed disk [] [] disk
  | settled {disk later : Disk} {files : List Progress} {results : List FileResult}
    (result : FileResult) (rest : Committed disk files results later) :
    Committed disk (.settled result :: files) (result :: results) later
  | written {disk next later : Disk} {files : List Progress} {results : List FileResult}
    {write : Pending} (h : disk.write write.path write.bytes = .ok next)
    (rest : Committed next files results later) :
    Committed disk (.pending write :: files) (write.fixed :: results) later
  | refused {disk later : Disk} {files : List Progress} {results : List FileResult}
    (write : Pending) (reason : String) (rest : Committed disk files results later) :
    Committed disk (.pending write :: files)
      (write.errored ("write failed: " ++ reason) :: results) later

theorem run_commit_of_ok {write : Pending}
    (h : (world.reply (.write write.path write.bytes)).1 = .ok ()) :
    world.run (commit (.pending write)) =
      (write.fixed, (world.reply (.write write.path write.bytes)).2) := by
  have hbytes : (String.ofList write.revision.text).toUTF8 = write.bytes := rfl
  rw [commit, hbytes, FallibleHost.run_bind, FallibleHost.run_request, h]
  rfl

theorem run_commit_of_error {write : Pending} {cause : IoCause}
    (h : (world.reply (.write write.path write.bytes)).1 = .error cause) :
    world.run (commit (.pending write)) =
      (write.errored ("write failed: " ++ cause.message),
        (world.reply (.write write.path write.bytes)).2) := by
  have hbytes : (String.ofList write.revision.text).toUTF8 = write.bytes := rfl
  rw [commit, hbytes, FallibleHost.run_bind, FallibleHost.run_request, h]
  rfl

theorem commitAll_committed (world : FallibleHost) (files : List Progress) :
    Committed world.disk files (world.run (commitAll files)).1
      (world.run (commitAll files)).2.disk := by
  induction files generalizing world with
  | nil => exact .nil _
  | cons progress files ih =>
    rw [commitAll, FallibleHost.run_bind, FallibleHost.run_bind]
    cases progress with
    | settled result => exact .settled result (ih world)
    | pending write =>
      have hrest := ih (world.reply (.write write.path write.bytes)).2
      cases hreply : (world.reply (.write write.path write.bytes)).1 with
      | ok _ =>
        rw [run_commit_of_ok hreply]
        exact .written (FallibleHost.reply_write_ok hreply) hrest
      | error cause =>
        rw [run_commit_of_error hreply]
        rw [FallibleHost.reply_write_error hreply] at hrest
        exact .refused write cause.message hrest

/-- The places of the files that are to be written. -/
def WritePlace (disk : Disk) (files : List Progress) (place : Place) : Prop :=
  ∃ write, .pending write ∈ files ∧ disk.destination write.path = some place

/-- A file that is pending is asked to be written. -/
theorem commit_asks {may : Request → Prop} {progress : Progress}
    (h : ∀ write, progress = .pending write → may (.write write.path write.bytes)) :
    (commit progress).Obeys may fun _ => True := by
  cases progress with
  | settled result => exact .pure trivial
  | pending write =>
    refine .ask (h write rfl) fun reply => ?_
    cases reply <;> exact .pure trivial

/-- The last phase asks to write what is pending. -/
theorem commitAll_asks {may : Request → Prop} {files : List Progress}
    (h : ∀ write, .pending write ∈ files → may (.write write.path write.bytes)) :
    (commitAll files).Obeys may fun _ => True := by
  induction files with
  | nil => exact .pure trivial
  | cons progress files ih =>
    have hfile : (commit progress).Obeys may fun _ => True :=
      commit_asks fun write hw => h write (hw ▸ List.mem_cons_self)
    have hfiles := ih fun write hw => h write (List.mem_cons_of_mem _ hw)
    exact .bind hfile fun _ _ => .bind hfiles fun _ _ => .pure trivial

/-- It writes at the places of the files that are pending. -/
theorem commitAll_within (disk : Disk) (files : List Progress) :
    (commitAll files).Obeys (Request.Within disk (WritePlace disk files)) fun _ => True :=
  commitAll_asks fun write hw _ hp => ⟨write, hw, hp⟩

theorem touched_commitAll (hs : world.disk.Solid world.disk.here) (files : List Progress) :
    world.disk.Touched (world.run (commitAll files)).2.disk (WritePlace world.disk files) :=
  (commitAll_within world.disk files).touched hs

namespace Committed

variable {disk later : Disk} {files : List Progress} {results : List FileResult}

/-- Files are written, and nothing else happens to the disk. -/
theorem develops (h : Committed disk files results later) (hs : disk.Solid disk.here) :
    disk.Develops later := by
  induction h with
  | nil disk => exact .refl disk
  | settled _ _ ih => exact ih hs
  | written hw _ ih =>
    have hdev := (Disk.write_spec hs hw).1.toDevelops
    exact hdev.trans (ih (hdev.solid_here hs))
  | refused _ _ _ ih => exact ih hs

/-- **Only the places of fixed files change.** -/
theorem file?_eq (h : Committed disk files results later) (hs : disk.Solid disk.here)
    {place : Place} (hplace : ∀ write, write.fixed ∈ results → .pending write ∈ files →
      disk.destination write.path ≠ some place) : later.file? place = disk.file? place := by
  induction h with
  | nil disk => rfl
  | settled _ _ ih =>
    exact ih hs fun write hr hw =>
      hplace write (List.mem_cons_of_mem _ hr) (List.mem_cons_of_mem _ hw)
  | @written _ _ _ _ _ write hw _ ih =>
    have htouched := (Disk.write_spec hs hw).1
    have hrest := ih (htouched.solid_here hs) fun other hr ho => by
      rw [htouched.destination_eq]
      exact hplace other (List.mem_cons_of_mem _ hr) (List.mem_cons_of_mem _ ho)
    exact hrest.trans (htouched.file?_eq place
      (hplace write List.mem_cons_self List.mem_cons_self))
  | refused _ _ _ ih =>
    exact ih hs fun write hr hw =>
      hplace write (List.mem_cons_of_mem _ hr) (List.mem_cons_of_mem _ hw)

/-- The places of fixed files are all that is touched. -/
theorem touched (h : Committed disk files results later) (hs : disk.Solid disk.here) :
    disk.Touched later fun place => ∃ write, write.fixed ∈ results ∧ .pending write ∈ files ∧
      disk.destination write.path = some place :=
  ⟨h.develops hs, fun _ hn => h.file?_eq hs fun write hr hw hp => hn ⟨write, hr, hw, hp⟩⟩

/-- Bytes stay that are written again and again. -/
theorem file?_kept (h : Committed disk files results later) (hs : disk.Solid disk.here)
    {place : Place} {bytes : ByteArray} (hfile : disk.file? place = some bytes)
    (hsame : ∀ write, .pending write ∈ files → disk.destination write.path = some place →
      write.bytes = bytes) : later.file? place = some bytes := by
  induction h with
  | nil => exact hfile
  | settled _ _ ih => exact ih hs hfile fun write hw => hsame write (List.mem_cons_of_mem _ hw)
  | @written disk next _ _ _ write hw _ ih =>
    have htouched := (Disk.write_spec hs hw).1
    refine ih (htouched.solid_here hs) ?_ fun other ho hd =>
      hsame other (List.mem_cons_of_mem _ ho) ((htouched.destination_eq _).symm.trans hd)
    by_cases hd : disk.destination write.path = some place
    · rw [← hsame write List.mem_cons_self hd]
      exact Disk.file?_of_write hs hw (Disk.keeps_of_file? hd hfile) hd
    · rw [htouched.file?_eq place hd, hfile]
  | refused _ _ _ ih => exact ih hs hfile fun write hw => hsame write (List.mem_cons_of_mem _ hw)

/-- **A file that is reported as fixed has its new bytes.**  Several paths may lead to it,
as long as the same is written to all of them. -/
theorem read_fixed (h : Committed disk files results later) (hs : disk.Solid disk.here)
    (hfiles : ∀ write, .pending write ∈ files → disk.isFile write.path = true)
    (hsame : ∀ write, .pending write ∈ files → ∀ other, .pending other ∈ files → ∀ place,
      disk.destination write.path = some place → disk.destination other.path = some place →
        write.bytes = other.bytes)
    (hsettled : ∀ result, .settled result ∈ files → result.record.status ≠ .fixed)
    {result : FileResult} (hr : result ∈ results) (hfixed : result.record.status = .fixed) :
    ∃ write, .pending write ∈ files ∧ result = write.fixed ∧
      later.read write.path = .ok write.bytes := by
  induction h with
  | nil => cases hr
  | settled settled _ ih =>
    rcases List.mem_cons.1 hr with rfl | hr
    · exact absurd hfixed (hsettled _ List.mem_cons_self)
    · obtain ⟨write, hw, heq, hread⟩ := ih hs
        (fun write hw => hfiles write (List.mem_cons_of_mem _ hw))
        (fun write hw other ho => hsame write (List.mem_cons_of_mem _ hw) other
          (List.mem_cons_of_mem _ ho))
        (fun result ho => hsettled result (List.mem_cons_of_mem _ ho)) hr
      exact ⟨write, List.mem_cons_of_mem _ hw, heq, hread⟩
  | @written disk next later files results write hw hrest ih =>
    have htouched := (Disk.write_spec hs hw).1
    have hs' := htouched.solid_here hs
    rcases List.mem_cons.1 hr with rfl | hr
    · refine ⟨write, List.mem_cons_self, rfl, ?_⟩
      obtain ⟨place, hd, hkeeps⟩ := Disk.keeps_of_isFile (hfiles write List.mem_cons_self)
      have hnew : next.file? place = some write.bytes := Disk.file?_of_write hs hw hkeeps hd
      have hlast : later.file? place = some write.bytes := hrest.file?_kept hs' hnew
        fun other ho hp => hsame other (List.mem_cons_of_mem _ ho) write List.mem_cons_self place
          ((htouched.destination_eq _).symm.trans hp) hd
      have hdev := htouched.toDevelops.trans (hrest.develops hs')
      exact Disk.read_of_file? (hdev.isFile (hfiles write List.mem_cons_self))
        ((hdev.destination_eq _).trans hd) hlast
    · obtain ⟨other, ho, heq, hread⟩ := ih hs'
        (fun other ho => htouched.isFile (hfiles other (List.mem_cons_of_mem _ ho)))
        (fun first hf second hsec place hp hp' => hsame first (List.mem_cons_of_mem _ hf) second
          (List.mem_cons_of_mem _ hsec) place ((htouched.destination_eq _).symm.trans hp)
          ((htouched.destination_eq _).symm.trans hp'))
        (fun result ho => hsettled result (List.mem_cons_of_mem _ ho)) hr
      exact ⟨other, List.mem_cons_of_mem _ ho, heq, hread⟩
  | refused write reason _ ih =>
    rcases List.mem_cons.1 hr with rfl | hr
    · cases hfixed
    · obtain ⟨other, ho, heq, hread⟩ := ih hs
        (fun write hw => hfiles write (List.mem_cons_of_mem _ hw))
        (fun write hw other ho => hsame write (List.mem_cons_of_mem _ hw) other
          (List.mem_cons_of_mem _ ho))
        (fun result ho => hsettled result (List.mem_cons_of_mem _ ho)) hr
      exact ⟨other, List.mem_cons_of_mem _ ho, heq, hread⟩

/-- What becomes of files of which all are covered that are pending. -/
theorem ends (h : Committed disk files results later) {covered : List String}
    (hcovered : ∀ write, .pending write ∈ files → write.file ∈ covered) :
    List.Forall₂ (Ends covered) files results := by
  induction h with
  | nil => exact .nil
  | settled result _ ih =>
    exact .cons (.early result) (ih fun write hw => hcovered write (List.mem_cons_of_mem _ hw))
  | written _ _ ih =>
    exact .cons (.fixed (hcovered _ List.mem_cons_self))
      (ih fun write hw => hcovered write (List.mem_cons_of_mem _ hw))
  | refused write reason _ ih =>
    exact .cons (.failed (hcovered _ List.mem_cons_self) reason)
      (ih fun write hw => hcovered write (List.mem_cons_of_mem _ hw))

end Committed

end Batch

end StyleTokens

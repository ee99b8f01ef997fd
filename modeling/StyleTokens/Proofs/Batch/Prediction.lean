/-
A dry run tells what a real one will do.

Both prepare the files in the same way.  The dry run then reports every pending
file as fixed; in the real run its backup or its write can still fail.

* `Batch.process_eq`, `Batch.process_eq_of_dry` — the phases of both;
* `Progress.Becomes` — what a prepared file can become in a real run;
* `FileRecord.Foretells` — the same for the records of two reports;
* `Batch.Succeeds` — a real run in which no snapshot and no write fails;
* `run_foretold` — the records of a dry run foretell those of the real one.
-/
import Mathlib.Data.List.Forall2
import StyleTokens.Proofs.Batch.Results
import StyleTokens.Proofs.Vault.Snapshot

namespace StyleTokens

variable {world : FallibleHost} {batch : Batch}

namespace Batch

/-- The batch as a dry run, or as a real one. -/
def withDryRun (batch : Batch) (dryRun : Bool) : Batch :=
  { batch with dryRun }

/-! ### The phases of both -/

theorem process_eq (h : batch.dryRun = false) (files : List String) :
    batch.process files = do
      let prepared ← batch.prepareAll files
      let secured ← batch.secure prepared
      let results ← commitAll secured.2
      return (secured.1, results) := by
  unfold process
  rw [h]
  rfl

theorem process_eq_of_dry (h : batch.dryRun = true) (files : List String) :
    batch.process files = do
      let prepared ← batch.prepareAll files
      return (false, prepared.map predicted) := by
  unfold process
  rw [h]
  rfl

/-- Files are prepared in the same way in both. -/
theorem prepareAll_withDryRun (batch : Batch) (dryRun : Bool) (files : List String) :
    (batch.withDryRun dryRun).prepareAll files = batch.prepareAll files := by
  induction files with
  | nil => rfl
  | cons file files ih =>
    rw [prepareAll, prepareAll, ih]
    rfl

theorem process_obeys_of_dry (h : batch.dryRun = true) (files : List String) :
    (batch.process files).Obeys Request.Reads fun _ => True := by
  rw [process_eq_of_dry h]
  exact .bind (batch.prepareAll_obeys files) fun _ _ => .pure trivial

theorem verify_obeys_of_dry (h : batch.dryRun = true) (start stop : Nat) :
    (batch.verify start stop).Obeys Request.Reads fun _ => True := by
  unfold verify
  rw [h]
  exact .pure trivial

/-- A dry run only reads. -/
theorem run_obeys_of_dry (h : batch.dryRun = true) (files : Names) (window : Window) :
    (batch.run files window).Obeys Request.Reads fun _ => True := by
  rw [run_eq]
  refine .bind (process_obeys_of_dry h _) fun processed _ => ?_
  refine .bind (verify_obeys_of_dry h _ _) fun gate _ => ?_
  exact .ask trivial fun _ => .pure trivial

end Batch

/-! ### What can become of a prepared file -/

/-- A file that is to be written, and the result when its backup or its write fails. -/
inductive Pending.Spoilt (write : Pending) : FileResult → Prop
  | backup (reason : String) : Spoilt write (write.errored ("backup failed: " ++ reason))
  | write (reason : String) : Spoilt write (write.errored ("write failed: " ++ reason))

/-- What a prepared file can become: what a dry run says, unless it is spoilt. -/
inductive Progress.Becomes : Progress → FileResult → Prop
  | predicted (progress : Progress) : Becomes progress (Batch.predicted progress)
  | spoilt {write : Pending} {result : FileResult} (h : write.Spoilt result) :
    Becomes (.pending write) result

namespace Batch

/-- What the second phase makes of a file: it stays, or its backup has failed. -/
inductive Secures : Progress → Progress → Prop
  | keep (progress : Progress) : Secures progress progress
  | refuse (write : Pending) (reason : String) :
    Secures (.pending write) (.settled (write.errored ("backup failed: " ++ reason)))

theorem secures_accept (manifest : Manifest) (progress : Progress) :
    Secures progress (accept manifest progress) := by
  cases progress with
  | settled result => exact .keep _
  | pending write =>
    rw [accept]
    split
    · exact .keep _
    · exact .refuse write _

theorem secures_refuse (fault : Fault) (progress : Progress) :
    Secures progress (refuse fault progress) := by
  cases progress with
  | settled result => exact .keep _
  | pending write => exact .refuse write _

theorem secure_secures (batch : Batch) (files : List Progress) :
    (batch.secure files).Obeys (fun _ => True) fun secured =>
      List.Forall₂ Secures files secured.2 := by
  have hkeep : List.Forall₂ Secures files files := List.forall₂_same.2 fun progress _ => .keep _
  unfold secure
  split
  · exact .pure hkeep
  · next vault _ =>
    show Script.Obeys _ _ (if (files.filterMap Progress.pending?).isEmpty then _ else _)
    split
    · exact .pure hkeep
    · refine .bind (.any _) fun snapshot _ => ?_
      cases snapshot with
      | ok manifest =>
        exact .pure (List.forall₂_map_right_iff.2
          (List.forall₂_same.2 fun progress _ => secures_accept manifest progress))
      | error fault =>
        exact .pure (List.forall₂_map_right_iff.2
          (List.forall₂_same.2 fun progress _ => secures_refuse fault progress))

/-- What the last phase makes of a file. -/
theorem commit_becomes (progress : Progress) :
    (commit progress).Obeys (fun _ => True) progress.Becomes := by
  cases progress with
  | settled result => exact .pure (.predicted (.settled result))
  | pending write =>
    refine .ask trivial fun reply => ?_
    cases reply with
    | ok _ => exact .pure (.predicted (.pending write))
    | error cause => exact .pure (.spoilt (.write cause.message))

theorem commitAll_becomes (files : List Progress) :
    (commitAll files).Obeys (fun _ => True) fun results =>
      List.Forall₂ Progress.Becomes files results := by
  induction files with
  | nil => exact .pure .nil
  | cons file files ih =>
    exact .bind (commit_becomes file) fun result hfile =>
      .bind ih fun others hfiles => .pure (.cons hfile hfiles)

/-- A file whose backup failed is spoilt; the others go on. -/
theorem Secures.becomes {progress secured : Progress} {result : FileResult}
    (h : Secures progress secured) (hr : secured.Becomes result) : progress.Becomes result := by
  cases h with
  | keep => exact hr
  | refuse write reason =>
    cases hr
    exact .spoilt (.backup reason)

theorem forall₂_becomes {files secured : List Progress} {results : List FileResult}
    (h : List.Forall₂ Secures files secured)
    (hr : List.Forall₂ Progress.Becomes secured results) :
    List.Forall₂ Progress.Becomes files results := by
  induction h generalizing results with
  | nil => exact hr
  | cons hfile _ ih =>
    cases hr with
    | cons hresult hrest => exact .cons (hfile.becomes hresult) (ih hrest)

/-- **Every file of a real run becomes what a dry run says**, unless it is spoilt. -/
theorem process_becomes (h : batch.dryRun = false) (files : List String) :
    List.Forall₂ Progress.Becomes (world.run (batch.prepareAll files)).1
      (world.run (batch.process files)).1.2 := by
  rw [process_eq h, FallibleHost.run_bind, FallibleHost.run_bind, FallibleHost.run_bind]
  exact forall₂_becomes (batch.secure_secures _).result (commitAll_becomes _).result

end Batch

/-- A record foretells another one that is the same.  That of a fixed file also foretells
that the file could not be backed up or written. -/
inductive FileRecord.Foretells : FileRecord → FileRecord → Prop
  | same (record : FileRecord) : Foretells record record
  | spoilt {predicted actual : FileRecord} (fixed : predicted.status = .fixed)
    (errored : actual.status = .errored) (path : actual.path = predicted.path)
    (size : actual.sizeBefore = predicted.sizeBefore)
    (error : ∃ reason, actual.error = some ("backup failed: " ++ reason) ∨
      actual.error = some ("write failed: " ++ reason)) : Foretells predicted actual

theorem Progress.Becomes.foretells {progress : Progress} {result : FileResult}
    (h : progress.Becomes result) :
    (Batch.predicted progress).record.Foretells result.record := by
  cases h with
  | predicted progress => exact .same _
  | spoilt h =>
    cases h with
    | backup reason => exact .spoilt rfl rfl rfl rfl ⟨reason, Or.inl rfl⟩
    | write reason => exact .spoilt rfl rfl rfl rfl ⟨reason, Or.inr rfl⟩

/-! ### When nothing fails -/

/-- Whether a write was carried out; other requests do not count. -/
def Exchange.carried : Exchange → Bool
  | ⟨.write _ _, .error _⟩ => false
  | _ => true

/-- Whether a snapshot succeeded, and copied every file. -/
def Manifest.isComplete : Except Fault Manifest → Bool
  | .ok manifest => manifest.failures.isEmpty
  | .error _ => false

namespace Batch

/-- A real run on some files in which the snapshot copies all files that are pending, and
every write is carried out. -/
structure Succeeds (batch : Batch) (world : FallibleHost) (files : List String) : Prop where
  snapshot : ∀ vault, batch.vault = some vault →
    let prepared := world.run (batch.prepareAll files)
    let pending := prepared.1.filterMap Progress.pending?
    pending ≠ [] → Manifest.isComplete
      (prepared.2.run (vault.snapshot (pending.map (·.file))).attempt).1 = true
  writes : ∀ exchange ∈ world.log (batch.process files), exchange.carried

/-- A file that the manifest names stays as it is. -/
theorem accept_of_covers {manifest : Manifest} {progress : Progress}
    (h : ∀ write, progress = .pending write → manifest.covers write.file = true) :
    accept manifest progress = progress := by
  cases progress with
  | settled result => rfl
  | pending write => rw [accept, if_pos (h write rfl)]

/-- A snapshot without failures names every file. -/
theorem covers_of_isComplete {vault : Vault} {files : List String} {manifest : Manifest}
    (h : (world.run (vault.snapshot files).attempt).1 = .ok manifest)
    (hcomplete : Manifest.isComplete (.ok manifest) = true) {file : String} (hf : file ∈ files) :
    manifest.covers file = true := by
  rcases (Vault.notes_of_run_snapshot h).noted file hf with hentry | hfailure
  · obtain ⟨entry, he, rfl⟩ := List.mem_map.1 hentry
    exact List.any_eq_true.2 ⟨entry, he, by simp⟩
  · rw [List.isEmpty_iff.1 hcomplete] at hfailure
    cases hfailure

theorem secure_of_isComplete {files : List Progress}
    (h : ∀ vault, batch.vault = some vault → files.filterMap Progress.pending? ≠ [] →
      Manifest.isComplete (world.run (vault.snapshot
        ((files.filterMap Progress.pending?).map (·.file))).attempt).1 = true) :
    (world.run (batch.secure files)).1.2 = files := by
  unfold secure
  split
  · rfl
  · next vault hv =>
    dsimp only
    split
    · rfl
    · next hpending =>
      have hcomplete := h vault hv (by simpa using hpending)
      have hcovers := @covers_of_isComplete world vault
        ((files.filterMap Progress.pending?).map (·.file))
      rw [FallibleHost.run_bind]
      generalize world.run (vault.snapshot
        ((files.filterMap Progress.pending?).map (·.file))).attempt = snapshot at hcomplete hcovers ⊢
      obtain ⟨result, next⟩ := snapshot
      cases result with
      | error fault => cases hcomplete
      | ok manifest =>
        show files.map (accept manifest) = files
        rw [List.map_congr_left (g := id), List.map_id]
        intro progress hp
        refine accept_of_covers fun write hw => hcovers rfl hcomplete ?_
        exact List.mem_map_of_mem (List.mem_filterMap.2 ⟨progress, hp, hw ▸ rfl⟩)

theorem commit_of_carried {progress : Progress}
    (h : ∀ exchange ∈ world.log (commit progress), exchange.carried) :
    (world.run (commit progress)).1 = predicted progress := by
  cases progress with
  | settled result => rfl
  | pending write =>
    have hcarried := h ⟨_, _⟩ List.mem_cons_self
    rw [commit, FallibleHost.run_bind, FallibleHost.run_request]
    generalize (world.reply (.write write.path (String.ofList write.revision.text).toUTF8)).1 =
      answer at hcarried
    cases answer with
    | ok _ => rfl
    | error cause => cases hcarried

theorem commitAll_of_carried {files : List Progress}
    (h : ∀ exchange ∈ world.log (commitAll files), exchange.carried) :
    (world.run (commitAll files)).1 = files.map predicted := by
  induction files generalizing world with
  | nil => rfl
  | cons file files ih =>
    rw [commitAll, FallibleHost.log_bind, FallibleHost.log_bind] at h
    rw [commitAll, FallibleHost.run_bind, FallibleHost.run_bind, List.map_cons]
    have hfile := commit_of_carried fun exchange he => h exchange (List.mem_append_left _ he)
    have hfiles := ih fun exchange he =>
      h exchange (List.mem_append_right _ (List.mem_append_left _ he))
    show _ :: _ = _
    rw [hfile, hfiles]

/-- When nothing fails, every file becomes what a dry run says. -/
theorem process_of_succeeds {files : List String} (h : batch.dryRun = false)
    (hs : batch.Succeeds world files) :
    (world.run (batch.process files)).1.2 =
      (world.run (batch.prepareAll files)).1.map predicted := by
  have hwrites := hs.writes
  rw [process_eq h, FallibleHost.log_bind, FallibleHost.log_bind, FallibleHost.log_bind] at hwrites
  rw [process_eq h, FallibleHost.run_bind, FallibleHost.run_bind, FallibleHost.run_bind]
  have hsecured := secure_of_isComplete hs.snapshot
  have hcommitted := commitAll_of_carried fun exchange he => hwrites exchange
    (List.mem_append_right _ (List.mem_append_right _ (List.mem_append_left _ he)))
  show (FallibleHost.run _ (commitAll _)).1 = _
  rw [hcommitted, hsecured]

end Batch

/-- In a world that refuses nothing, nothing fails. -/
theorem Sample.succeeds :
    (Sample.batch.withDryRun false).Succeeds (Sample.world fun _ => true)
      (Window.of ⟨0, 5⟩ Sample.files.toList) where
  snapshot vault hv := by
    cases hv
    decide +kernel
  writes := by decide +kernel

/-! ### Both runs -/

/-- **A dry run changes no file and foretells the real run.**  When nothing fails, the two
agree. -/
theorem Batch.run_foretold (world : FallibleHost) (batch : Batch) (files : Names) (window : Window) :
    let dry := world.run ((batch.withDryRun true).run files window)
    let real := world.run ((batch.withDryRun false).run files window)
    dry.2.disk = world.disk ∧
      List.Forall₂ FileRecord.Foretells dry.1.results real.1.results ∧
      ((batch.withDryRun false).Succeeds world (window.of files.toList) →
        real.1.results = dry.1.results) := by
  have hprepared := batch.prepareAll_withDryRun
  have hdry : (world.run ((batch.withDryRun true).run files window)).1.results =
      ((world.run (batch.prepareAll (window.of files.toList))).1.map predicted).map
        FileResult.record := by
    rw [run_eq, FallibleHost.run_bind, FallibleHost.run_bind, FallibleHost.run_bind]
    show (FallibleHost.run world (process _ _)).1.2.map FileResult.record = _
    rw [process_eq_of_dry rfl, hprepared]
    rw [FallibleHost.run_bind]
    rfl
  have hreal : (world.run ((batch.withDryRun false).run files window)).1.results =
      (world.run ((batch.withDryRun false).process (window.of files.toList))).1.2.map
        FileResult.record := by
    rw [run_eq, FallibleHost.run_bind, FallibleHost.run_bind, FallibleHost.run_bind]
    rfl
  refine ⟨(run_obeys_of_dry rfl files window).disk_run world, ?_, fun hs => ?_⟩
  · rw [hdry, hreal, List.map_map, List.forall₂_map_left_iff, List.forall₂_map_right_iff]
    have hbecomes : List.Forall₂ Progress.Becomes
        (world.run ((batch.withDryRun false).prepareAll (window.of files.toList))).1
        (world.run ((batch.withDryRun false).process (window.of files.toList))).1.2 :=
      process_becomes rfl _
    rw [hprepared] at hbecomes
    exact hbecomes.imp fun _ _ h => h.foretells
  · rw [hdry, hreal, process_of_succeeds rfl hs, hprepared]

/-- In a world that refuses nothing, the small project comes out as foretold. -/
theorem Sample.results_foretold :
    (Sample.batch.withDryRun false).Succeeds (Sample.world fun _ => true)
        (Window.of ⟨0, 5⟩ Sample.files.toList) ∧
      ((Sample.world fun _ => true).run
        ((Sample.batch.withDryRun false).run Sample.files ⟨0, 5⟩)).1.results =
      ((Sample.world fun _ => true).run
        ((Sample.batch.withDryRun true).run Sample.files ⟨0, 5⟩)).1.results :=
  ⟨Sample.succeeds, (Batch.run_foretold _ Sample.batch Sample.files ⟨0, 5⟩).2.2 Sample.succeeds⟩

end StyleTokens

/-
More fragments leave out more files, and nothing else.

What a batch reads of a file, and whether it can write it, is decided by that file.  A run
that leaves out more files therefore finds the others as it would have found them, and they
come out as they would have.  A file that is left out has a result that tells its path and
nothing else, and neither it nor a copy of it is written.

* `Exclusion.excludes_append`, `ofFragments_congr` — lists of fragments combine like sets;
* `Batch.excluding` — a batch that leaves out what certain fragments stand for;
* `Batch.outcome`, `run_process_eq_map` — every file of a window comes out by itself;
* `Batch.FixedAt`, `file?_process` — nothing changes but the vault and fixed files;
* `Batch.Exempts` — what more fragments change;
* `run_exempts` — that is what they change;
* `Sample.linked_not_exempt` — what a link can do to files that are left out.

Design notes: a file is left out by its path, and a link can make two paths lead to one
file.  A file can then be rewritten although one of its paths is left out, and a file that
cannot be read can be rewritten by way of another path, as long as that one is not left out.
-/
import StyleTokens.Proofs.Batch.Windows
import StyleTokens.Proofs.Disk.Admission

namespace StyleTokens

open FallibleHost

section

variable {world later : FallibleHost} {batch : Batch} {file other : String}
  {files listing fragments others : List String} {place : Place} {path : Path}
  {progress : Progress}

/-! ### Fragments -/

namespace Exclusion

/-- A list of fragments leaves out what one of them leaves out. -/
theorem excludes_iff_exists (texts : List String) (path : String) :
    (ofFragments texts).excludes path = true ↔
      ∃ text ∈ texts, (ofFragments [text]).excludes path = true := by
  simp only [excludes_iff, List.mem_singleton, exists_eq_left]

/-- Two lists leave out what one or the other does. -/
theorem excludes_append (texts others : List String) (path : String) :
    (ofFragments (texts ++ others)).excludes path =
      ((ofFragments texts).excludes path || (ofFragments others).excludes path) := by
  rw [Bool.eq_iff_iff, Bool.or_eq_true, excludes_iff, excludes_iff, excludes_iff]
  simp only [List.mem_append, or_and_right, exists_or]

/-- Neither the order of the fragments matters nor how often each is given. -/
theorem ofFragments_congr {texts others : List String} (h : ∀ text, text ∈ texts ↔ text ∈ others) :
    ofFragments texts = ofFragments others :=
  congrArg Exclusion.mk (Names.ext_mem fun name => by
    simp only [Names.mem_ofList, List.mem_filter, List.mem_map, h])

end Exclusion

namespace Progress.Becomes

variable {result : FileResult}

theorem path_eq (h : progress.Becomes result) : result.path = progress.path := by
  cases h with
  | predicted => exact Batch.path_predicted progress
  | spoilt hspoilt => cases hspoilt <;> rfl

/-- What does not fail is what a dry run says. -/
theorem eq_predicted (h : progress.Becomes result) (hr : result.record.status ≠ .errored) :
    result = Batch.predicted progress := by
  cases h with
  | predicted => rfl
  | spoilt hspoilt => cases hspoilt <;> exact absurd rfl hr

end Progress.Becomes

namespace Batch

/-- The batch with other fragments. -/
def excluding (batch : Batch) (fragments : List String) : Batch :=
  { batch with exclusion := .ofFragments fragments }

/-- The files that are not left out. -/
def admitted (batch : Batch) (files : List String) : List String :=
  files.filter fun file => !batch.exclusion.excludes file

/-- The snapshot of a real run on some files copies all of them that are pending. -/
def CopiesAll (batch : Batch) (world : FallibleHost) (files : List String) : Prop :=
  batch.dryRun = false → ∀ vault, batch.vault = some vault →
    let prepared := world.run (batch.prepareAll files)
    pendingFiles prepared.1 ≠ [] → Manifest.isComplete
      (prepared.2.run (vault.snapshot (pendingFiles prepared.1)).attempt).1 = true

/-! ### One file -/

/-- What becomes of a file that is taken by itself, unless its backup fails. -/
def outcome (batch : Batch) (world : FallibleHost) (file : String) : FileResult :=
  let progress := (world.run (batch.prepare file)).1
  if batch.dryRun then predicted progress else (world.run (commit progress)).1

theorem prepare_of_excluded (h : batch.exclusion.excludes file = true) :
    batch.prepare file = pure (.settled ⟨file, .skipped⟩) := by
  unfold prepare
  rw [if_pos h]

/-- A file that is left out is skipped, whatever there is. -/
theorem outcome_of_excluded (h : batch.exclusion.excludes file = true) :
    batch.outcome world file = ⟨file, .skipped⟩ := by
  rw [outcome, prepare_of_excluded h]
  cases batch.dryRun <;> rfl

/-- Fragments count for a file only as far as they leave it out. -/
theorem outcome_excluding_congr
    (h : (Exclusion.ofFragments fragments).excludes file =
      (Exclusion.ofFragments others).excludes file) :
    (batch.excluding fragments).outcome world file =
      (batch.excluding others).outcome world file := by
  have hprepare : (batch.excluding fragments).prepare file =
      (batch.excluding others).prepare file := by
    unfold prepare
    show (if (Exclusion.ofFragments fragments).excludes file then _ else _) =
      (if (Exclusion.ofFragments others).excludes file then _ else _)
    rw [h]
    rfl
  unfold outcome
  rw [hprepare]
  rfl

/-- A file becomes what a dry run says, unless its write fails. -/
theorem becomes_outcome (batch : Batch) (world : FallibleHost) (file : String) :
    (world.run (batch.prepare file)).1.Becomes (batch.outcome world file) := by
  unfold outcome
  split
  · exact .predicted _
  · exact (commit_becomes _).result

/-- What does not fail comes out as foretold. -/
theorem record_outcome (h : (batch.outcome world file).record.status ≠ .errored) :
    (batch.outcome world file).record = batch.foretold world file :=
  congrArg FileResult.record ((batch.becomes_outcome world file).eq_predicted h)

theorem path_outcome (batch : Batch) (world : FallibleHost) (file : String) :
    (batch.outcome world file).record.path = file := by
  rw [path_record, (batch.becomes_outcome world file).path_eq]
  exact (batch.prepare_obeys file).result

/-- A file that is to be fixed has a text in which the rules have something to replace. -/
theorem exists_of_fixed (h : (batch.foretold world file).status = .fixed) :
    ∃ place data text, world.disk.destination (batch.root.under ⟨file⟩) = some place ∧
      world.disk.file? place = some data ∧ String.fromUTF8? data = some text ∧
      (batch.ruleSet.revise text.toList).changed = true := by
  have hisFile := isFile_of_fixed h
  have hprepared := batch.prepare_prepared world file
  rw [foretold] at h
  generalize (world.run (batch.prepare file)).1 = progress at h hprepared
  cases hprepared with
  | settled _ early => exact absurd (Or.inl h) early
  | @pending data text size read decoded changed =>
    obtain ⟨place, hd, hfile⟩ := Disk.file?_of_isFile hisFile read
    exact ⟨place, data, text, hd, hfile, decoded, changed⟩

section

variable (hsteady : world.Steady)

include hsteady in
/-- A file is skipped exactly if it is left out. -/
theorem skipped_outcome_iff : (batch.outcome world file).record.status = .skipped ↔
    batch.exclusion.excludes file = true := by
  refine ⟨fun h => Decidable.byContradiction fun hn => ?_, fun h => by
    rw [outcome_of_excluded h]
    rfl⟩
  rw [record_outcome (by simp [h]), foretold, run_prepare hsteady] at h
  unfold judge at h
  rw [if_neg hn] at h
  split at h
  · cases h
  · split at h <;> cases h

include hsteady in
/-- A file that is looked at and can be read is fixed if the rules have something to replace
in it. -/
theorem exists_of_read (hskipped : (batch.foretold world file).status ≠ .skipped)
    (herrored : (batch.foretold world file).status ≠ .errored) :
    ∃ data text, world.disk.read (batch.root.under ⟨file⟩) = .ok data ∧
      String.fromUTF8? data = some text ∧ ((batch.ruleSet.revise text.toList).changed = true →
        (batch.foretold world file).status = .fixed) := by
  rw [foretold, run_prepare hsteady] at hskipped herrored ⊢
  unfold judge at hskipped herrored ⊢
  split at hskipped
  · exact absurd rfl hskipped
  · next hn =>
    rw [if_neg hn] at herrored ⊢
    have hread := @run_readText_ok world (batch.root.under ⟨file⟩)
    generalize (world.run (Script.readText (batch.root.under ⟨file⟩))).1 = answer at herrored hread ⊢
    cases answer with
    | error cause => exact absurd rfl herrored
    | ok text =>
      obtain ⟨data, hdata, htext⟩ := hread rfl
      refine ⟨data, text, hdata, htext, fun hchanged => ?_⟩
      dsimp only
      rw [if_pos hchanged]
      rfl

include hsteady in
/-- Of two paths that lead to one file, the rules fix both when they fix one, if the other is
looked at and can be read. -/
theorem fixed_of_same_place (hfixed : (batch.foretold world other).status = .fixed)
    (hd : world.disk.destination (batch.root.under ⟨other⟩) = some place)
    (hd' : world.disk.destination (batch.root.under ⟨file⟩) = some place)
    (hskipped : (batch.foretold world file).status ≠ .skipped)
    (herrored : (batch.foretold world file).status ≠ .errored) :
    (batch.foretold world file).status = .fixed := by
  obtain ⟨_, data, text, hplace, hfile, htext, hchanged⟩ := exists_of_fixed hfixed
  obtain rfl := Option.some.inj (hplace.symm.trans hd)
  obtain ⟨data', text', hread, htext', hfixes⟩ := exists_of_read hsteady hskipped herrored
  obtain rfl : data' = data := (Disk.bytesAt_of_read hread).unique ⟨_, hd', Or.inl hfile⟩
  obtain rfl : text' = text := Option.some.inj (htext'.symm.trans htext)
  exact hfixes hchanged

end

/-! ### All files of a window -/

/-- Files are prepared one by one. -/
theorem prepareAll_eq_prepareEach (hsteady : world.Steady) :
    (world.run (batch.prepareAll files)).1 = batch.prepareEach world files :=
  run_prepareAll hsteady fun _ _ => .refl world _

/-- What is asked of a file that is there is answered at any time as it is now. -/
theorem reply_write_eq (hsteady : world.Steady) (hs : world.disk.Solid world.disk.here)
    (hrefusal : later.refusal = world.refusal) (hdev : world.disk.Develops later.disk)
    (hfile : world.disk.isFile path = true) (data : ByteArray) :
    (later.reply (.write path data)).1 = (world.reply (.write path data)).1 := by
  obtain ⟨now, hnow⟩ := Disk.write_of_isFile hs hfile data
  obtain ⟨then', hthen⟩ := Disk.write_of_isFile (hdev.solid_here hs) (hdev.isFile hfile) data
  rw [(hsteady.of_eq hrefusal).reply_eq, hsteady.reply_eq, hrefusal]
  refine congrArg _ ?_
  show (later.host.change (later.disk.write path data)).1 =
    (world.host.change (world.disk.write path data)).1
  rw [hnow, hthen]
  rfl

/-- A file that is there is written at any time as it would be now. -/
theorem run_commit_eq (hsteady : world.Steady) (hs : world.disk.Solid world.disk.here)
    (hrefusal : later.refusal = world.refusal) (hdev : world.disk.Develops later.disk)
    (hfile : ∀ write, progress = .pending write → world.disk.isFile write.path = true) :
    (later.run (commit progress)).1 = (world.run (commit progress)).1 := by
  cases progress with
  | settled result => rfl
  | pending write =>
    have hreply := reply_write_eq hsteady hs hrefusal hdev (hfile write rfl) write.bytes
    cases h : (world.reply (.write write.path write.bytes)).1 with
    | ok _ => rw [run_commit_of_ok h, run_commit_of_ok (hreply.trans h)]
    | error cause => rw [run_commit_of_error h, run_commit_of_error (hreply.trans h)]

/-- **Files are written one by one**, each as it would be now. -/
theorem run_commitAll (hsteady : world.Steady) (hs : world.disk.Solid world.disk.here)
    (hrefusal : later.refusal = world.refusal) (hdev : world.disk.Develops later.disk)
    {prepared : List Progress}
    (hfiles : ∀ write, .pending write ∈ prepared → world.disk.isFile write.path = true) :
    (later.run (commitAll prepared)).1 =
      prepared.map fun progress => (world.run (commit progress)).1 := by
  induction prepared generalizing later with
  | nil => rfl
  | cons progress prepared ih =>
    have hnext : later.disk.Develops (later.run (commit progress)).2.disk :=
      ((commit_asks fun _ _ _ _ => trivial).touched (hdev.solid_here hs)).toDevelops
    rw [commitAll, run_bind, run_bind, List.map_cons,
      run_commit_eq hsteady hs hrefusal hdev fun write hw => hfiles write (hw ▸ List.mem_cons_self)]
    exact congrArg (_ :: ·) (ih ((later.refusal_run _).trans hrefusal) (hdev.trans hnext)
      fun write hw => hfiles write (List.mem_cons_of_mem _ hw))

/-- **Every file of a window comes out by itself.** -/
theorem run_process_eq_map (hsteady : world.Steady) (hs : world.disk.Solid world.disk.here)
    (hcopies : batch.CopiesAll world files) :
    (world.run (batch.process files)).1.2 = files.map (batch.outcome world) := by
  have hprepared : (world.run (batch.prepareAll files)).1 = batch.prepareEach world files :=
    prepareAll_eq_prepareEach hsteady
  cases hdry : batch.dryRun with
  | true =>
    rw [process_eq_of_dry hdry, run_bind]
    show (world.run (batch.prepareAll files)).1.map predicted = _
    rw [hprepared, prepareEach, List.map_map]
    exact List.map_congr_left fun file _ => by rw [outcome, if_pos hdry]; rfl
  | false =>
    have hdisk := (batch.prepareAll_obeys files).disk_run world
    have hchosen : _ = (world.run (batch.prepareAll files)).1 :=
      secure_of_isComplete fun vault hv hne => hcopies hdry vault hv (by simpa [pendingFiles] using hne)
    have htouched := touched_secure (hdisk ▸ hs) (hdisk ▸ batch.prepareAll_prepared world files)
    rw [run_process_eq hdry]
    dsimp only
    rw [hchosen, hprepared, run_commitAll hsteady hs, prepareEach, List.map_map]
    · exact List.map_congr_left fun file _ => by rw [outcome, if_neg (by simp [hdry])]; rfl
    · rw [refusal_run, refusal_run]
    · rw [← hdisk, ← hprepared]
      exact htouched.toDevelops
    · exact fun write hw => isFile_of_pending hw

/-- The results of a run are those of its files, each taken by itself. -/
theorem results_run_eq_map (hsteady : world.Steady) (hs : world.disk.Solid world.disk.here)
    {names : Names} {window : Window} (hcopies : batch.CopiesAll world (window.of names.toList)) :
    (world.run (batch.run names window)).1.results =
      (window.of names.toList).map fun file => (batch.outcome world file).record := by
  rw [results_run, run_process_eq_map hsteady hs hcopies, List.map_map]
  rfl

/-! ### What is left on the disk -/

/-- A place to which the path of a fixed file leads. -/
def FixedAt (batch : Batch) (disk : Disk) (records : List FileRecord) (place : Place) : Prop :=
  ∃ record ∈ records, record.status = .fixed ∧
    disk.destination (batch.root.under ⟨record.path⟩) = some place

/-- **Nothing changes but the vault and fixed files**, and the vault is that of the files that
are pending. -/
theorem file?_process (hs : world.disk.Solid world.disk.here)
    (hvault : ¬ batch.VaultPlace world.disk
      (pendingFiles (world.run (batch.prepareAll files)).1) place)
    (hfixed : ¬ batch.FixedAt world.disk
      ((world.run (batch.process files)).1.2.map FileResult.record) place) :
    (world.run (batch.process files)).2.disk.file? place = world.disk.file? place := by
  cases hdry : batch.dryRun with
  | true => rw [(process_obeys_of_dry hdry files).disk_run world]
  | false =>
    have hprepared := batch.prepareAll_prepared world files
    have hdisk := (batch.prepareAll_obeys files).disk_run world
    rw [run_process_eq hdry] at hfixed ⊢
    rw [← hdisk] at hs hvault hfixed hprepared ⊢
    have htouched := (batch.secure_within _ (world.run (batch.prepareAll files)).1).touched hs
    obtain ⟨covered, hchooses⟩ := exists_chooses hs (world.run (batch.prepareAll files)).1
    have hcommitted := commitAll_committed
      ((world.run (batch.prepareAll files)).2.run
        (batch.secure (world.run (batch.prepareAll files)).1)).2
      ((world.run (batch.prepareAll files)).2.run
        (batch.secure (world.run (batch.prepareAll files)).1)).1.2
    refine (hcommitted.file?_eq (htouched.solid_here hs) fun write hr hw hd => hfixed ?_).trans
      (htouched.file?_eq place hvault)
    refine ⟨write.fixed.record, List.mem_map_of_mem hr, rfl, ?_⟩
    rwa [path_fixed, ← (hchooses.prepared_of_mem hprepared hw).1, ← htouched.destination_eq]

/-- Only files that are not left out are pending. -/
theorem mem_admitted_of_pending (hsteady : world.Steady)
    (h : file ∈ pendingFiles (world.run (batch.prepareAll files)).1) :
    file ∈ batch.admitted files := by
  rw [prepareAll_eq_prepareEach hsteady] at h
  obtain ⟨write, hw, rfl⟩ := mem_pendingFiles.1 h
  obtain ⟨hmem, hpending⟩ := mem_prepareEach hw
  have hadmitted : batch.exclusion.excludes write.file ≠ true := by
    intro hexcluded
    rw [prepare_of_excluded hexcluded] at hpending
    cases hpending
  exact List.mem_filter.2 ⟨hmem, by simpa using hadmitted⟩

/-- The gate of a window leaves a place alone: neither does it write its logs there, nor does
its job touch it. -/
def GateSpares (batch : Batch) (world : FallibleHost) (start stop : Nat) (place : Place) : Prop :=
  ∀ gate, batch.gateAt? start stop = some gate → ¬ gate.LogPlace world.disk place ∧
    ∀ disk, (world.host.shell gate.job disk).disk.file? place = disk.file? place

/-- What the gate leaves alone is at the end as it was after the last write. -/
theorem file?_run (hs : world.disk.Solid world.disk.here) {names : Names} {window : Window}
    (hspares : batch.GateSpares world window.start
      (window.start + (window.of names.toList).length) place) :
    (world.run (batch.run names window)).2.disk.file? place =
      (world.run (batch.process (window.of names.toList))).2.disk.file? place := by
  have hpaths : (world.run (batch.process (window.of names.toList))).1.2.map (·.path) =
      window.of names.toList := (batch.process_obeys _).result
  have hlength := congrArg List.length hpaths
  rw [List.length_map] at hlength
  have hdev : world.disk.Develops (world.run (batch.process (window.of names.toList))).2.disk :=
    develops_process hs _
  have hshell := world.shell_run (batch.process (window.of names.toList))
  rw [run_eq, run_bind, run_bind, run_bind, hlength, run_pure, (Script.Obeys.request .now trivial).disk_run]
  generalize world.run (batch.process (window.of names.toList)) = processed at hdev hshell ⊢
  refine holds_verify (fun disk => disk.file? place = processed.2.disk.file? place)
    (hdev.solid_here hs) (fun gate hgate => ?_) rfl
  obtain ⟨hlog, hjob⟩ := hspares gate hgate
  refine ⟨fun later htouched => htouched.file?_eq place ?_, fun disk hdisk => ?_⟩
  · rwa [Gate.LogPlace, hdev.destination_eq, hdev.destination_eq]
  · rw [hshell, hjob, hdisk]

/-! ### More fragments -/

/-- What more fragments change: a run that leaves files out, and one that leaves out more. -/
structure Exempts (batch : Batch) (world : FallibleHost) (files : Names) (window : Window)
    (fragments others : List String) (fewer more : BatchReport × FallibleHost) : Prop where
  /-- A file is skipped exactly if a fragment of one of the lists stands for it. -/
  skipped_iff : ∀ record ∈ more.1.results, record.status = .skipped ↔
    ∃ text ∈ fragments ++ others, (Exclusion.ofFragments [text]).excludes record.path = true
  /-- The result of a skipped file tells its path and nothing else. -/
  blank : ∀ record ∈ more.1.results, record.status = .skipped →
    record = (FileResult.mk record.path .skipped).record
  /-- The other files have the results that they had. -/
  results_eq : more.1.results = fewer.1.results.map fun record =>
    if (Exclusion.ofFragments others).excludes record.path then
      (FileResult.mk record.path .skipped).record
    else record
  /-- A skipped file stays as it is, unless the path of a fixed file leads there as well. -/
  kept : ∀ record ∈ more.1.results, record.status = .skipped →
    ∀ place, world.disk.destination (batch.root.under ⟨record.path⟩) = some place →
      batch.GateSpares world window.start
        (window.start + (window.of files.toList).length) place →
      ¬ batch.FixedAt world.disk more.1.results place →
        more.2.disk.file? place = world.disk.file? place
  /-- Nothing is written but fixed files and the vault of the files that are not left out, so
  that no copy is made of a skipped file. -/
  uncopied : ∀ place,
    ¬ batch.VaultPlace world.disk
      ((batch.excluding (fragments ++ others)).admitted (window.of files.toList)) place →
    batch.GateSpares world window.start
      (window.start + (window.of files.toList).length) place →
    ¬ batch.FixedAt world.disk more.1.results place →
      more.2.disk.file? place = world.disk.file? place
  /-- The manifest names no skipped file. -/
  unnamed : batch.dryRun = false → ∀ vault, batch.vault = some vault → ∃ manifest,
    BackedUp vault world.disk
        (world.run ((batch.excluding (fragments ++ others)).process (window.of files.toList))).2.disk
        (pendingFiles (world.run
          ((batch.excluding (fragments ++ others)).prepareAll (window.of files.toList))).1)
        more.1 manifest ∧
      ∀ record ∈ more.1.results, record.status = .skipped →
        record.path ∉ Manifest.named manifest
  /-- A file that is not left out has the same bytes after both runs.  One that fails must not
  be where the path of a file leads that would be fixed and is left out now. -/
  same : ∀ record ∈ more.1.results, record.status ≠ .skipped →
    ∀ place, world.disk.destination (batch.root.under ⟨record.path⟩) = some place →
      batch.GateSpares world window.start
        (window.start + (window.of files.toList).length) place →
      (record.status = .errored → ¬ batch.FixedAt world.disk (fewer.1.results.filter fun record =>
        (Exclusion.ofFragments others).excludes record.path) place) →
        more.2.disk.file? place = fewer.2.disk.file? place
  /-- So has every place outside the vault where no such path leads. -/
  elsewhere : ∀ place, ¬ batch.VaultPlace world.disk (window.of files.toList) place →
    batch.GateSpares world window.start
      (window.start + (window.of files.toList).length) place →
    ¬ batch.FixedAt world.disk (fewer.1.results.filter fun record =>
      (Exclusion.ofFragments others).excludes record.path) place →
      more.2.disk.file? place = fewer.2.disk.file? place

section

variable (hsteady : world.Steady) (hs : world.disk.Solid world.disk.here)
  (hspared : ∀ file ∈ files, ∀ place,
    world.disk.destination (batch.root.under ⟨file⟩) = some place →
      ¬ batch.VaultPlace world.disk files place)
  (hfewer : (batch.excluding fragments).CopiesAll world files)
  (hmore : (batch.excluding (fragments ++ others)).CopiesAll world files)

/-- A file is left out now, or it comes out as before. -/
theorem record_outcome_append (batch : Batch) (world : FallibleHost)
    (fragments others : List String) (file : String) :
    ((batch.excluding (fragments ++ others)).outcome world file).record =
      if (Exclusion.ofFragments others).excludes file then
        (FileResult.mk file .skipped).record
      else ((batch.excluding fragments).outcome world file).record := by
  have happend := Exclusion.excludes_append fragments others file
  split
  · next h =>
    rw [h, Bool.or_true] at happend
    rw [outcome_of_excluded happend]
  · next h =>
    rw [Bool.eq_false_iff.2 h, Bool.or_false] at happend
    rw [outcome_excluding_congr happend]

include hsteady hs hspared in
/-- A file that is fixed has the text that the rules make of its old one. -/
theorem rewritten_process (hreal : batch.dryRun = false) (hcopies : batch.CopiesAll world files)
    (hf : file ∈ files) (hfixed : (batch.outcome world file).record.status = .fixed) :
    batch.Rewritten world.disk (world.run (batch.process files)).2.disk file := by
  have hr : (batch.outcome world file).record ∈
      (world.run (batch.process files)).1.2.map FileResult.record := by
    rw [run_process_eq_map hsteady hs hcopies]
    exact List.mem_map_of_mem (List.mem_map_of_mem hf)
  have hread := (truthful_process hreal hs (fun _ hf => hf) hspared).fixed _ hr hfixed
  rwa [path_outcome] at hread

include hsteady hs hspared in
/-- A file that both runs fix has the same bytes after both. -/
theorem file?_eq_of_fixed (hfewer : (batch.excluding fragments).CopiesAll world files)
    (hmore : (batch.excluding others).CopiesAll world files) (hf : file ∈ files)
    (hfixed : ((batch.excluding fragments).outcome world file).record.status = .fixed)
    (hfixed' : ((batch.excluding others).outcome world file).record.status = .fixed)
    (hd : world.disk.destination (batch.root.under ⟨file⟩) = some place) :
    (world.run ((batch.excluding others).process files)).2.disk.file? place =
      (world.run ((batch.excluding fragments).process files)).2.disk.file? place := by
  cases hdry : batch.dryRun with
  | true =>
    have hstays (texts : List String) (h : (batch.excluding texts).dryRun = true) :
        (world.run ((batch.excluding texts).process files)).2.disk = world.disk :=
      (process_obeys_of_dry h files).disk_run world
    rw [hstays _ hdry, hstays _ hdry]
  | false =>
    have hrewritten (texts : List String) (hreal : (batch.excluding texts).dryRun = false)
        (hcopies : (batch.excluding texts).CopiesAll world files)
        (h : ((batch.excluding texts).outcome world file).record.status = .fixed) :
        (batch.excluding texts).Rewritten world.disk
          (world.run ((batch.excluding texts).process files)).2.disk file :=
      rewritten_process hsteady hs hspared hreal hcopies hf h
    have hisFile : world.disk.isFile ((batch.excluding fragments).root.under ⟨file⟩) = true := by
      rw [record_outcome (by simp [hfixed])] at hfixed
      exact isFile_of_fixed hfixed
    exact Rewritten.file?_eq (hrewritten others hdry hmore hfixed')
      (hrewritten fragments hdry hfewer hfixed) hisFile (develops_process hs files)
      (develops_process hs files) hd

include hsteady hs in
/-- The fixed files of a run are those that come out as fixed by themselves. -/
theorem fixedAt_process_iff (hcopies : batch.CopiesAll world files) :
    batch.FixedAt world.disk ((world.run (batch.process files)).1.2.map FileResult.record) place ↔
      ∃ file ∈ files, (batch.outcome world file).record.status = .fixed ∧
        world.disk.destination (batch.root.under ⟨file⟩) = some place := by
  rw [run_process_eq_map hsteady hs hcopies, List.map_map]
  simp only [FixedAt, List.mem_map, Function.comp, exists_exists_and_eq_and, path_outcome]

include hsteady hs in
/-- Those of them that are left out when there are more fragments. -/
theorem fixedAt_filter_iff (hcopies : batch.CopiesAll world files) :
    batch.FixedAt world.disk (((world.run (batch.process files)).1.2.map FileResult.record).filter
        fun record => (Exclusion.ofFragments others).excludes record.path) place ↔
      ∃ file ∈ files, (Exclusion.ofFragments others).excludes file = true ∧
        (batch.outcome world file).record.status = .fixed ∧
        world.disk.destination (batch.root.under ⟨file⟩) = some place := by
  rw [run_process_eq_map hsteady hs hcopies, List.map_map]
  simp only [FixedAt, List.mem_filter, List.mem_map, Function.comp, and_assoc,
    exists_exists_and_eq_and, path_outcome]

include hsteady hs hspared hfewer hmore in
/-- Every place outside the vault shows the same after both runs, unless the path of a file
leads there that would be fixed and is left out now. -/
theorem file?_process_append (hvault : ¬ batch.VaultPlace world.disk files place)
    (hleft : ¬ ∃ file ∈ files, (Exclusion.ofFragments others).excludes file = true ∧
      ((batch.excluding fragments).outcome world file).record.status = .fixed ∧
      world.disk.destination (batch.root.under ⟨file⟩) = some place) :
    (world.run ((batch.excluding (fragments ++ others)).process files)).2.disk.file? place =
      (world.run ((batch.excluding fragments).process files)).2.disk.file? place := by
  have hkept (texts : List String) (hcopies : (batch.excluding texts).CopiesAll world files)
      (hfixed : ¬ ∃ file ∈ files,
        ((batch.excluding texts).outcome world file).record.status = .fixed ∧
          world.disk.destination (batch.root.under ⟨file⟩) = some place) :
      (world.run ((batch.excluding texts).process files)).2.disk.file? place =
        world.disk.file? place :=
    file?_process hs (fun hp => hvault (VaultPlace.mono hp fun file hf =>
      List.mem_of_mem_filter (mem_admitted_of_pending hsteady hf)))
      fun h => hfixed ((fixedAt_process_iff hsteady hs hcopies).1 h)
  by_cases hfixed : ∃ file ∈ files,
      ((batch.excluding (fragments ++ others)).outcome world file).record.status = .fixed ∧
        world.disk.destination (batch.root.under ⟨file⟩) = some place
  · obtain ⟨file, hf, hstatus, hd⟩ := hfixed
    have hbefore := record_outcome_append batch world fragments others file
    split at hbefore
    · rw [hbefore] at hstatus
      cases hstatus
    · exact file?_eq_of_fixed hsteady hs hspared hfewer hmore hf (hbefore ▸ hstatus) hstatus hd
  · rw [hkept _ hmore hfixed, hkept _ hfewer]
    rintro ⟨file, hf, hstatus, hd⟩
    have hbefore := record_outcome_append batch world fragments others file
    split at hbefore
    · next hexcluded => exact hleft ⟨file, hf, hexcluded, hstatus, hd⟩
    · exact hfixed ⟨file, hf, hbefore ▸ hstatus, hd⟩

include hsteady hs hspared hfewer hmore in
/-- A file that is fixed or found unchanged has the same bytes after both runs. -/
theorem file?_process_same (hf : file ∈ files)
    (hskipped : ((batch.excluding (fragments ++ others)).outcome world file).record.status ≠
      .skipped)
    (herrored : ((batch.excluding (fragments ++ others)).outcome world file).record.status ≠
      .errored)
    (hd : world.disk.destination (batch.root.under ⟨file⟩) = some place) :
    (world.run ((batch.excluding (fragments ++ others)).process files)).2.disk.file? place =
      (world.run ((batch.excluding fragments).process files)).2.disk.file? place := by
  by_cases hleft : ∃ file ∈ files, (Exclusion.ofFragments others).excludes file = true ∧
      ((batch.excluding fragments).outcome world file).record.status = .fixed ∧
      world.disk.destination (batch.root.under ⟨file⟩) = some place
  · obtain ⟨other, ho, -, hfixed, hd'⟩ := hleft
    have hbefore := record_outcome_append batch world fragments others file
    split at hbefore
    · rw [hbefore] at hskipped
      exact absurd rfl hskipped
    · rw [hbefore] at hskipped herrored
      have hforetold := record_outcome herrored
      rw [record_outcome (by simp [hfixed])] at hfixed
      rw [hforetold] at hskipped herrored
      have hfixes := fixed_of_same_place hsteady hfixed hd' hd hskipped herrored
      rw [← hforetold] at hfixes
      exact file?_eq_of_fixed hsteady hs hspared hfewer hmore hf hfixes (hbefore ▸ hfixes) hd
  · exact file?_process_append hsteady hs hspared hfewer hmore (hspared file hf place hd) hleft

end

/-- A skipped file has not got as far as a write. -/
theorem not_reachedWrite_skipped (file : String) :
    ¬ (FileResult.mk file .skipped).record.ReachedWrite := by
  rintro (hfixed | ⟨reason, herror⟩)
  · cases hfixed
  · cases herror

section

variable {names : Names} {window : Window} (hsteady : world.Steady)
  (hs : world.disk.Solid world.disk.here)
  (hspared : ∀ file ∈ window.of names.toList, ∀ place,
    world.disk.destination (batch.root.under ⟨file⟩) = some place →
      ¬ batch.VaultPlace world.disk (window.of names.toList) place)

include hsteady hs in
/-- The record of a skipped file is made of its path. -/
theorem record_of_skipped (hcopies : batch.CopiesAll world (window.of names.toList))
    {record : FileRecord} (hr : record ∈ (world.run (batch.run names window)).1.results)
    (hskipped : record.status = .skipped) :
    record = (FileResult.mk record.path .skipped).record := by
  rw [results_run_eq_map hsteady hs hcopies] at hr
  obtain ⟨file, -, rfl⟩ := List.mem_map.1 hr
  rw [path_outcome, outcome_of_excluded ((skipped_outcome_iff hsteady).1 hskipped)]

include hsteady hs in
/-- The manifest names no skipped file. -/
theorem backedUp_unnamed (hcopies : batch.CopiesAll world (window.of names.toList))
    (hreal : batch.dryRun = false) {vault : Vault} (hv : batch.vault = some vault)
    (hspared : ∀ file ∈ window.of names.toList, ∀ place,
      world.disk.destination (batch.root.under ⟨file⟩) = some place →
        ¬ batch.VaultPlace world.disk (window.of names.toList) place) :
    ∃ manifest, BackedUp vault world.disk
        (world.run (batch.process (window.of names.toList))).2.disk
        (pendingFiles (world.run (batch.prepareAll (window.of names.toList))).1)
        (world.run (batch.run names window)).1 manifest ∧
      ∀ record ∈ (world.run (batch.run names window)).1.results, record.status = .skipped →
        record.path ∉ Manifest.named manifest := by
  obtain ⟨manifest, hbacked⟩ := backedUp_run hv hreal hs hspared
  refine ⟨manifest, hbacked, fun record hr hskipped hnamed => ?_⟩
  have hreached := (hbacked.named_iff record hr).1 hnamed
  rw [record_of_skipped hsteady hs hcopies hr hskipped] at hreached
  exact not_reachedWrite_skipped _ hreached

include hsteady hs in
/-- What no fixed file and no copy is written to is as it was. -/
theorem file?_run_kept
    (hvault : ¬ batch.VaultPlace world.disk (batch.admitted (window.of names.toList)) place)
    (hspares : batch.GateSpares world window.start
      (window.start + (window.of names.toList).length) place)
    (hfixed : ¬ batch.FixedAt world.disk (world.run (batch.run names window)).1.results place) :
    (world.run (batch.run names window)).2.disk.file? place = world.disk.file? place := by
  rw [results_run] at hfixed
  rw [file?_run hs hspares]
  exact file?_process hs (fun hp => hvault (hp.mono fun _ hf => mem_admitted_of_pending hsteady hf))
    hfixed

/-- What is the same after the last write of two runs is the same when the gate is over. -/
theorem file?_run_congr (hs : world.disk.Solid world.disk.here)
    (hspares : batch.GateSpares world window.start
      (window.start + (window.of names.toList).length) place)
    (h : (world.run ((batch.excluding others).process (window.of names.toList))).2.disk.file? place =
      (world.run ((batch.excluding fragments).process (window.of names.toList))).2.disk.file?
        place) :
    (world.run ((batch.excluding others).run names window)).2.disk.file? place =
      (world.run ((batch.excluding fragments).run names window)).2.disk.file? place := by
  have hends (texts : List String) :
      (world.run ((batch.excluding texts).run names window)).2.disk.file? place =
        (world.run ((batch.excluding texts).process (window.of names.toList))).2.disk.file? place :=
    file?_run hs hspares
  rw [hends, hends, h]

include hsteady hs hspared in
/-- More fragments change what `Exempts` says. -/
theorem exempts (hfewer : (batch.excluding fragments).CopiesAll world (window.of names.toList))
    (hmore : (batch.excluding (fragments ++ others)).CopiesAll world (window.of names.toList)) :
    batch.Exempts world names window fragments others
      (world.run ((batch.excluding fragments).run names window))
      (world.run ((batch.excluding (fragments ++ others)).run names window)) where
  skipped_iff record hr := by
    rw [results_run_eq_map hsteady hs hmore] at hr
    obtain ⟨file, -, rfl⟩ := List.mem_map.1 hr
    rw [skipped_outcome_iff hsteady, path_outcome]
    exact Exclusion.excludes_iff_exists _ file
  blank record hr := record_of_skipped hsteady hs hmore hr
  results_eq := by
    rw [results_run_eq_map hsteady hs hmore, results_run_eq_map hsteady hs hfewer, List.map_map]
    refine List.map_congr_left fun file _ => ?_
    rw [Function.comp, path_outcome, record_outcome_append]
  kept record hr _ place hd hspares hfixed := by
    rw [results_run_eq_map hsteady hs hmore] at hr
    obtain ⟨file, hf, rfl⟩ := List.mem_map.1 hr
    rw [path_outcome] at hd
    have hvault := hspared file hf place hd
    exact file?_run_kept hsteady hs
      (fun hp => hvault (VaultPlace.mono hp fun _ ha => List.mem_of_mem_filter ha)) hspares hfixed
  uncopied place hvault hspares hfixed := file?_run_kept hsteady hs hvault hspares hfixed
  unnamed hreal vault hv := backedUp_unnamed hsteady hs hmore hreal hv hspared
  same record hr hskipped place hd hspares hleft := by
    rw [results_run_eq_map hsteady hs hmore] at hr
    obtain ⟨file, hf, rfl⟩ := List.mem_map.1 hr
    rw [path_outcome] at hd
    refine file?_run_congr hs hspares ?_
    by_cases herrored : ((batch.excluding (fragments ++ others)).outcome world file).record.status =
        .errored
    · have hleft := hleft herrored
      rw [results_run] at hleft
      exact file?_process_append hsteady hs hspared hfewer hmore (hspared file hf place hd)
        fun hfixed => hleft ((fixedAt_filter_iff hsteady hs hfewer).2 hfixed)
    · exact file?_process_same hsteady hs hspared hfewer hmore hf hskipped herrored hd
  elsewhere place hvault hspares hleft := by
    rw [results_run] at hleft
    exact file?_run_congr hs hspares
      (file?_process_append hsteady hs hspared hfewer hmore hvault fun hfixed =>
        hleft ((fixedAt_filter_iff hsteady hs hfewer).2 hfixed))

end

end Batch

end

/-! ### Runs -/

/-- **More fragments leave out more files, and nothing else.**  A file that is left out is
skipped and is not written, nor is a copy of it; the others have the same results, and the
same bytes afterwards.  Neither the order of the fragments matters nor how often each is
given. -/
theorem Batch.run_exempts (world : FallibleHost) (batch : Batch) (files : Names) (window : Window)
    (fragments others : List String) (hsteady : world.Steady)
    (hs : world.disk.Solid world.disk.here)
    (hspared : ∀ file ∈ files.toList, ∀ place,
      world.disk.destination (batch.root.under ⟨file⟩) = some place →
        ¬ batch.VaultPlace world.disk (window.of files.toList) place)
    (hfewer : (batch.excluding fragments).CopiesAll world (window.of files.toList))
    (hmore : (batch.excluding (fragments ++ others)).CopiesAll world (window.of files.toList)) :
    batch.Exempts world files window fragments others
        (world.run ((batch.excluding fragments).run files window))
        (world.run ((batch.excluding (fragments ++ others)).run files window)) ∧
      ∀ texts, (∀ text, text ∈ texts ↔ text ∈ fragments ++ others) →
        batch.excluding texts = batch.excluding (fragments ++ others) :=
  ⟨exempts hsteady hs (fun file hf => hspared file ((window.of_sublist _).mem hf)) hfewer hmore,
    fun _ h => congrArg (fun exclusion => { batch with exclusion })
      (Exclusion.ofFragments_congr h)⟩

namespace Sample

/-- The batch without backups. -/
def unbacked : Batch :=
  { Sample.batch with vault := none }

/-- The project with the link, when nothing can be read by way of it. -/
def unreadable : FallibleHost :=
  { linked with
    refusal := fun _ request =>
      match request with
      | .read path => if path.text = "/p/l.css" then some .permissionDenied else none
      | _ => none }

/-- With backups, one file is left out of the small project, and then another one. -/
theorem fragments_added :
    let start := Sample.world fun _ => true
    let fewer := start.run ((Sample.batch.excluding ["b.css"]).run files ⟨0, 3⟩)
    let more := start.run ((Sample.batch.excluding ["b.css", "/c"]).run files ⟨0, 3⟩)
    start.Steady ∧ disk.Solid disk.here ∧
      (Sample.batch.excluding ["b.css"]).CopiesAll start (Window.of ⟨0, 3⟩ files.toList) ∧
      (Sample.batch.excluding ["b.css", "/c"]).CopiesAll start (Window.of ⟨0, 3⟩ files.toList) ∧
      Sample.batch.Exempts start files ⟨0, 3⟩ ["b.css"] ["/c"] fewer more ∧
      fewer.1.results.map (·.status) = [.fixed, .skipped, .fixed] ∧
      more.1.results.map (·.status) = [.fixed, .skipped, .skipped] := by
  have hfewer : (Sample.batch.excluding ["b.css"]).CopiesAll (Sample.world fun _ => true)
      (Window.of ⟨0, 3⟩ files.toList) := by
    rintro - vault hv
    cases hv
    decide +kernel
  have hmore : (Sample.batch.excluding ["b.css", "/c"]).CopiesAll (Sample.world fun _ => true)
      (Window.of ⟨0, 3⟩ files.toList) := by
    rintro - vault hv
    cases hv
    decide +kernel
  exact ⟨fun _ _ => rfl, solid, hfewer, hmore,
    (Batch.run_exempts _ Sample.batch files ⟨0, 3⟩ ["b.css"] ["/c"] (fun _ _ => rfl) solid spared
      hfewer hmore).1, by decide +kernel, by decide +kernel⟩

/-- The statuses after a run without backups, and the bytes of the file that the link leads
to. -/
def afterRun (start : FallibleHost) (fragments : List String) :
    List FileStatus × Option ByteArray :=
  let ended := start.run ((unbacked.excluding fragments).run linkedFiles ⟨0, 2⟩)
  (ended.1.results.map (·.status), ended.2.disk.file? ["p", "a.css"])

/-- **A link can rewrite what is left out**: the link is skipped, and its bytes change with
the file that it leads to.  When it cannot be read and that file is left out, it has the same
result as before and other bytes. -/
theorem linked_not_exempt :
    linked.Steady ∧ unreadable.Steady ∧
      linked.disk.destination (unbacked.root.under ⟨"l.css"⟩) = some ["p", "a.css"] ∧
      linked.disk.file? ["p", "a.css"] = some "4".toUTF8 ∧
      afterRun linked ["/l.css"] = ([.fixed, .skipped], some "var(--four)".toUTF8) ∧
      afterRun unreadable [] = ([.fixed, .errored], some "var(--four)".toUTF8) ∧
      afterRun unreadable ["/a.css"] = ([.skipped, .errored], some "4".toUTF8) :=
  ⟨fun _ _ => rfl, fun _ _ => rfl, by decide +kernel, by decide +kernel, by decide +kernel,
    by decide +kernel, by decide +kernel⟩

end Sample

end StyleTokens

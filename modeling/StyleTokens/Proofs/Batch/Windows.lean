/-
Batching does not change the outcome.

A listing may be cut into windows that are run one after another.  Each of them finds
the files of the later windows as they were at the start, as long as the vault and the
logs of the gate lie aside of them; so every file comes out as it would by itself, and
the cut does not matter.

* `Window.cut`, `Batch.sweep` — windows of certain sizes, and their runs in order;
* `Batch.Aside` — the vault and the logs are not in the way of any file;
* `Batch.Swept` — what the world is like when some of the files are done;
* `Swept.run` — a run does the files of its window, each as it would be by itself;
* `sweep_eq_run` — all windows together come to what a single run comes to.

Design notes: what a batch brings about is told by the places that paths lead to at the
start.  Two listed paths that lead to one file would get in each other's way: the second
window finds the file rewritten.
-/
import StyleTokens.Proofs.Batch.Backup
import StyleTokens.Proofs.Batch.Steady
import StyleTokens.Proofs.World.Growth

namespace StyleTokens

open FallibleHost

/-- Windows of certain sizes, each behind the one before it. -/
def Window.cut : (start : Nat) → List Nat → List Window
  | _, [] => []
  | start, size :: sizes => ⟨start, size⟩ :: cut (start + size) sizes

section

variable {disk later : Disk} {batch : Batch} {start now after : FallibleHost}
  {listing done files : List String} {place : Place} {path : Path}

theorem Disk.Develops.onTheWay_iff (h : disk.Develops later) :
    later.OnTheWay path place ↔ disk.OnTheWay path place := by
  simp only [Disk.OnTheWay, h.destination_eq]

/-- The places on the way to what a snapshot of some files writes. -/
def Vault.WayPlace (vault : Vault) (disk : Disk) (files : List String) (place : Place) : Prop :=
  disk.OnTheWay vault.manifestPath place ∨ ∃ file ∈ files,
    disk.OnTheWay (vault.backupPath file) place ∨ disk.OnTheWay (vault.pristinePath file) place

namespace Batch

/-- Runs window after window. -/
def sweep (batch : Batch) (files : Names) : List Window → Script (List BatchReport)
  | [] => return []
  | window :: windows => do
    let report ← batch.run files window
    return report :: (← batch.sweep files windows)

/-- In no window a snapshot or a write fails. -/
def SucceedsThrough (batch : Batch) (files : Names) : FallibleHost → List Window → Prop
  | _, [] => True
  | world, window :: windows =>
    batch.Succeeds world (window.of files.toList) ∧
      batch.SucceedsThrough files (world.run (batch.run files window)).2 windows

/-! ### Places of the batch -/

/-- The places of the vault and of the logs. -/
def OwnPlace (batch : Batch) (disk : Disk) (files : List String) (place : Place) : Prop :=
  batch.VaultPlace disk files place ∨ ∃ start stop, batch.LogPlace disk start stop place

/-- The places where something may come when the vault and the logs are written. -/
def NewPlace (batch : Batch) (disk : Disk) (files : List String) (place : Place) : Prop :=
  (∃ vault, batch.vault = some vault ∧ vault.WayPlace disk files place) ∨
    ∃ start stop gate, batch.gateAt? start stop = some gate ∧
      (disk.OnTheWay gate.logDirectory place ∨ gate.LogPlace disk place)

/-- The vault and the logs are not in the way of any file: no file is where they are
written, and they help no file to be found. -/
structure Aside (batch : Batch) (disk : Disk) (files : List String) : Prop where
  reached : ∀ file ∈ files, ∀ place, disk.destination (batch.root.under ⟨file⟩) = some place →
    ¬ batch.OwnPlace disk files place
  missing : ∀ file ∈ files, disk.entryAt (batch.root.under ⟨file⟩) = .error .notFound →
    disk.Loses (batch.OwnPlace disk files) (batch.NewPlace disk files) (batch.root.under ⟨file⟩)

theorem ownPlace_of_vaultPlace (hdev : disk.Develops later)
    (hsub : ∀ file ∈ files, file ∈ listing) (h : batch.VaultPlace later files place) :
    batch.OwnPlace disk listing place := by
  obtain ⟨vault, hv, hplace⟩ := h
  refine Or.inl ⟨vault, hv, ?_⟩
  rcases hplace with hmanifest | ⟨file, hf, hcopy⟩
  · exact Or.inl ((hdev.destination_eq _).symm.trans hmanifest)
  · exact Or.inr ⟨file, hsub file hf, (Vault.copyPlace_congr hdev).1 hcopy⟩

theorem newPlace_of_wayPlace {vault : Vault} (hv : batch.vault = some vault)
    (hdev : disk.Develops later) (hsub : ∀ file ∈ files, file ∈ listing)
    (h : vault.WayPlace later files place) : batch.NewPlace disk listing place := by
  refine Or.inl ⟨vault, hv, ?_⟩
  rcases h with hmanifest | ⟨file, hf, hcopy⟩
  · exact Or.inl (hdev.onTheWay_iff.1 hmanifest)
  · exact Or.inr ⟨file, hsub file hf, hcopy.imp hdev.onTheWay_iff.1 hdev.onTheWay_iff.1⟩

/-! ### What the phases bring -/

/-- Backing up files brings the vault, and nothing else. -/
theorem secure_grown (hs : now.disk.Solid now.disk.here) (prepared : List Progress) :
    now.disk.Grown (now.run (batch.secure prepared)).2.disk
      (batch.VaultPlace now.disk (pendingFiles prepared))
      fun place => ∃ vault, batch.vault = some vault ∧
        vault.WayPlace now.disk (pendingFiles prepared) place := by
  refine (secure_asks fun vault hv => ?_).grown hs (.refl _ _ _)
  have hcopy : ∀ file ∈ pendingFiles prepared, ∀ place, vault.CopyPlace now.disk file place →
      batch.VaultPlace now.disk (pendingFiles prepared) place :=
    fun file hf place hp => ⟨vault, hv, Or.inr ⟨file, hf, hp⟩⟩
  refine Script.Obeys.mono (Vault.snapshot_asks (fun _ h => h.grows) (fun file hf => ⟨?_, ?_⟩) ?_)
    (fun _ h => h) fun _ _ => trivial
  · exact mayPut_grows (fun place hp => hcopy file hf place (Or.inl hp))
      fun place hp => ⟨vault, hv, Or.inr ⟨file, hf, Or.inl hp⟩⟩
  · exact mayPut_grows (fun place hp => hcopy file hf place (Or.inr hp))
      fun place hp => ⟨vault, hv, Or.inr ⟨file, hf, Or.inr hp⟩⟩
  · exact mayPut_grows (fun place hp => ⟨vault, hv, Or.inl hp⟩)
      fun place hp => ⟨vault, hv, Or.inl hp⟩

/-- Writing files that are there brings nothing new. -/
theorem Committed.comes {prepared : List Progress} {results : List FileResult}
    (h : Committed disk prepared results later) (hs : disk.Solid disk.here)
    (hfiles : ∀ write, .pending write ∈ prepared → disk.isFile write.path = true)
    (he : disk.entry? place = none) : later.entry? place = none := by
  induction h with
  | nil => exact he
  | settled _ _ ih => exact ih hs (fun write hw => hfiles write (List.mem_cons_of_mem _ hw)) he
  | @written disk next _ _ _ write hw _ ih =>
    have hgrown := Disk.write_grown hs hw
    refine ih (hgrown.solid_here hs)
      (fun other ho => hgrown.toDevelops.isFile (hfiles other (List.mem_cons_of_mem _ ho)))
      (hgrown.comes place he ?_)
    rintro ⟨hplace, -⟩
    obtain ⟨other, data, hf⟩ := Disk.isFile_iff.1 (hfiles write List.mem_cons_self)
    obtain rfl : other = place := Option.some.inj
      ((Disk.destination_of_find hf (by simp)).symm.trans hplace)
    rw [(Disk.find_eq_ok_iff.1 hf).2.entry?_at] at he
    cases he
  | refused _ _ _ ih =>
    exact ih hs (fun write hw => hfiles write (List.mem_cons_of_mem _ hw)) he

/-- The gate brings its logs, if its job keeps to them. -/
theorem verify_grown {first stop : Nat} (hs : now.disk.Solid now.disk.here)
    (hjob : ∀ gate, batch.gateAt? first stop = some gate → now.KeepsToLogs gate.job) :
    now.disk.Grown (now.run (batch.verify first stop)).2.disk
      (batch.LogPlace now.disk first stop)
      fun place => ∃ gate, batch.gateAt? first stop = some gate ∧
        (now.disk.OnTheWay gate.logDirectory place ∨ gate.LogPlace now.disk place) := by
  rcases batch.verify_cases first stop with ⟨-, reason, hv⟩ | ⟨gate, hgate, -⟩
  · rw [hv]
    exact .refl _ _ _
  · refine (verify_asks (fun _ h => h.grows) hgate (Gate.mayLog_grows ?_ ?_)).grown
      (hjob gate hgate) ?_ hs (.refl _ _ _)
    · exact fun place hp => ⟨gate, hgate, hp⟩
    · exact fun place hp => ⟨gate, hgate, hp⟩
    · exact fun place hp => ⟨⟨gate, hgate, hp⟩, gate, hgate, Or.inr hp⟩

/-! ### Files that are done -/

/-- What becomes of a file that is taken by itself. -/
def foretold (batch : Batch) (world : FallibleHost) (file : String) : FileRecord :=
  (predicted (world.run (batch.prepare file)).1).record

/-- A file that a real run fixes. -/
def Fixes (batch : Batch) (start : FallibleHost) (file : String) : Prop :=
  batch.dryRun = false ∧ (batch.foretold start file).status = .fixed

/-- The places of files that are fixed. -/
def FixedPlace (batch : Batch) (start : FallibleHost) (done : List String) (place : Place) : Prop :=
  ∃ file ∈ done, batch.Fixes start file ∧
    start.disk.destination (batch.root.under ⟨file⟩) = some place

/-- A file that has the text that the rules make of its old one. -/
def Rewritten (batch : Batch) (before after : Disk) (file : String) : Prop :=
  ∃ data text, before.read (batch.root.under ⟨file⟩) = .ok data ∧
    String.fromUTF8? data = some text ∧ after.read (batch.root.under ⟨file⟩) =
      .ok (String.ofList (batch.ruleSet.revise text.toList).text).toUTF8

/-- The rules make one text of the old one. -/
theorem Rewritten.agree {file : String} {before : Disk} (h : batch.Rewritten before disk file)
    (h' : batch.Rewritten before later file) :
    ∃ data, disk.read (batch.root.under ⟨file⟩) = .ok data ∧
      later.read (batch.root.under ⟨file⟩) = .ok data := by
  obtain ⟨data, text, hold, htext, hread⟩ := h
  obtain ⟨data', text', hold', htext', hread'⟩ := h'
  obtain rfl : data = data' := Except.ok.inj (hold.symm.trans hold')
  obtain rfl : text = text' := Option.some.inj (htext.symm.trans htext')
  exact ⟨_, hread, hread'⟩

/-- So the place of such a file shows the same afterwards. -/
theorem Rewritten.file?_eq {file : String} {before : Disk} (h : batch.Rewritten before disk file)
    (h' : batch.Rewritten before later file)
    (hisFile : before.isFile (batch.root.under ⟨file⟩) = true) (hdev : before.Develops disk)
    (hdev' : before.Develops later)
    (hd : before.destination (batch.root.under ⟨file⟩) = some place) :
    disk.file? place = later.file? place := by
  obtain ⟨data, hread, hread'⟩ := h.agree h'
  obtain ⟨first, hfirst, hfile⟩ := Disk.file?_of_isFile (hdev.isFile hisFile) hread
  obtain ⟨second, hsecond, hfile'⟩ := Disk.file?_of_isFile (hdev'.isFile hisFile) hread'
  rw [hdev.destination_eq] at hfirst
  rw [hdev'.destination_eq] at hsecond
  obtain rfl : first = place := Option.some.inj (hfirst.symm.trans hd)
  obtain rfl : second = first := Option.some.inj (hsecond.symm.trans hd)
  rw [hfile, hfile']

/-- The world when some of the listed files are done: those that are to be fixed are
rewritten, and nothing else is touched but the vault and the logs. -/
structure Swept (batch : Batch) (start : FallibleHost) (listing done : List String)
    (now : FallibleHost) : Prop where
  refusal_eq : now.refusal = start.refusal
  shell_eq : now.host.shell = start.host.shell
  grown : start.disk.Grown now.disk
    (fun place => batch.OwnPlace start.disk listing place ∨ batch.FixedPlace start done place)
    (batch.NewPlace start.disk listing)
  rewritten : ∀ file ∈ done, batch.Fixes start file → batch.Rewritten start.disk now.disk file

theorem Swept.refl (batch : Batch) (start : FallibleHost) (listing : List String) :
    batch.Swept start listing [] start :=
  ⟨rfl, rfl, .refl _ _ _, fun _ h => nomatch h⟩

/-- A file that is to be fixed is a file. -/
theorem isFile_of_fixed {file : String} (h : (batch.foretold start file).status = .fixed) :
    start.disk.isFile (batch.root.under ⟨file⟩) = true := by
  have hprepared := batch.prepare_prepared start file
  rw [foretold] at h
  generalize (start.run (batch.prepare file)).1 = progress at h hprepared
  cases progress with
  | settled result =>
    cases hprepared with
    | settled _ early => exact absurd (Or.inl h) early
  | pending write =>
    obtain ⟨-, -, data, _, hread, -, hne, -⟩ := hprepared.of_pending
    exact Disk.isFile_of_read hread hne

/-- Where a file is fixed there was one. -/
theorem not_fixedPlace_of_none (h : start.disk.entry? place = none) :
    ¬ batch.FixedPlace start done place := by
  rintro ⟨file, -, ⟨-, hfixed⟩, hd⟩
  obtain ⟨other, data, hf⟩ := Disk.isFile_iff.1 (isFile_of_fixed hfixed)
  obtain rfl : other = place := Option.some.inj
    ((Disk.destination_of_find hf (by simp)).symm.trans hd)
  rw [(Disk.find_eq_ok_iff.1 hf).2.entry?_at] at h
  cases h

/-- Doing more files is no harm to those that are done. -/
theorem FixedPlace.append (h : batch.FixedPlace start done place) :
    batch.FixedPlace start (done ++ files) place :=
  h.imp fun _ ⟨hf, hfixed⟩ => ⟨List.mem_append_left _ hf, hfixed⟩

section Sweeping

variable (hsteady : start.Steady)
  (hs : start.disk.Solid start.disk.here) (haside : batch.Aside start.disk listing)
  (happart : ∀ file ∈ listing, ∀ other ∈ listing, file ≠ other →
    start.disk.Apart (batch.root.under ⟨file⟩) (batch.root.under ⟨other⟩))
  (hquiet : ∀ first stop gate, batch.gateAt? first stop = some gate → start.KeepsToLogs gate.job)

include haside in
/-- A world that is left alone but for the vault and the logs stays as it is for the files
that are done. -/
theorem Swept.extend (h : batch.Swept start listing done now)
    (hdone : ∀ file ∈ done, file ∈ listing) (hrefusal : after.refusal = now.refusal)
    (hshell : after.host.shell = now.host.shell) {places news : Place → Prop}
    (hgrown : now.disk.Grown after.disk places news)
    (hplaces : ∀ place, places place → batch.OwnPlace start.disk listing place)
    (hnews : ∀ place, news place → batch.NewPlace start.disk listing place) :
    batch.Swept start listing done after where
  refusal_eq := hrefusal.trans h.refusal_eq
  shell_eq := hshell.trans h.shell_eq
  grown := h.grown.trans (hgrown.mono (fun place hp => Or.inl (hplaces place hp)) hnews)
  rewritten := fun file hf hfixed => by
    obtain ⟨data, text, hold, htext, hnow⟩ := h.rewritten file hf hfixed
    refine ⟨data, text, hold, htext, hgrown.toTouched.read hnow fun place hd hp => ?_⟩
    rw [h.grown.destination_eq] at hd
    exact haside.reached file (hdone file hf) place hd (hplaces place hp)

include hs haside in
/-- A file shows what it showed at the start, unless it was fixed in the meantime. -/
theorem Swept.sameAt (h : batch.Swept start listing done now) {file : String}
    (hf : file ∈ listing) (hkept : ∀ place,
      start.disk.destination (batch.root.under ⟨file⟩) = some place →
        ¬ batch.FixedPlace start done place) :
    start.SameAt now (batch.root.under ⟨file⟩) := by
  have hplace : ∀ place, start.disk.destination (batch.root.under ⟨file⟩) = some place →
      ¬ (batch.OwnPlace start.disk listing place ∨ batch.FixedPlace start done place) :=
    fun place hd hp => hp.elim (haside.reached file hf place hd) (hkept place hd)
  have hlost : start.disk.entryAt (batch.root.under ⟨file⟩) = .error .notFound →
      start.disk.Loses
        (fun place => batch.OwnPlace start.disk listing place ∨ batch.FixedPlace start done place)
        (batch.NewPlace start.disk listing) (batch.root.under ⟨file⟩) :=
    fun hnone => (haside.missing file hf hnone).mono
      (fun place he hp => hp.resolve_right (not_fixedPlace_of_none he)) fun _ hn => hn
  exact ⟨h.refusal_eq, h.grown.read_eq hs hlost hplace, h.grown.size_eq hs hlost hplace⟩

include happart in
theorem not_fixedPlace (hdone : ∀ file ∈ done, file ∈ listing) {file : String}
    (hf : file ∈ listing) (hnew : file ∉ done) {place : Place}
    (hd : start.disk.destination (batch.root.under ⟨file⟩) = some place) :
    ¬ batch.FixedPlace start done place := by
  rintro ⟨other, ho, -, hplace⟩
  refine happart file hf other (hdone other ho) ?_ place hd hplace
  rintro rfl
  exact hnew ho

/-! ### One window -/

/-- Files that are prepared each by itself, in a world as it was at the start. -/
def prepareEach (batch : Batch) (world : FallibleHost) (files : List String) : List Progress :=
  files.map fun file => (world.run (batch.prepare file)).1

theorem mem_prepareEach {write : Pending} (h : .pending write ∈ batch.prepareEach start files) :
    write.file ∈ files ∧ (start.run (batch.prepare write.file)).1 = .pending write := by
  obtain ⟨file, hf, hp⟩ := List.mem_map.1 h
  have hprepared := batch.prepare_prepared start file
  rw [hp] at hprepared
  obtain rfl := hprepared.of_pending.1
  exact ⟨hf, hp⟩

/-- What is known of a file that is pending when each is prepared by itself. -/
theorem of_mem_prepareEach {write : Pending}
    (h : .pending write ∈ batch.prepareEach start files) :
    batch.Prepared start.disk write.file (.pending write) ∧
      (batch.foretold start write.file).status = .fixed := by
  obtain ⟨-, hp⟩ := mem_prepareEach h
  have hprepared := batch.prepare_prepared start write.file
  rw [hp] at hprepared
  refine ⟨hprepared, ?_⟩
  rw [foretold, hp]
  rfl

/-- No two pending files have one name. -/
theorem eq_of_mem_prepareEach {write other : Pending}
    (h : .pending write ∈ batch.prepareEach start files)
    (ho : .pending other ∈ batch.prepareEach start files) (hsame : write.file = other.file) :
    write = other := by
  have hp := (mem_prepareEach h).2
  rw [hsame, (mem_prepareEach ho).2] at hp
  exact (Progress.pending.inj hp).symm

theorem not_fixed_of_settled {result : FileResult}
    (h : .settled result ∈ batch.prepareEach start files) : result.record.status ≠ .fixed := by
  obtain ⟨file, -, hp⟩ := List.mem_map.1 h
  have hprepared := batch.prepare_prepared start file
  rw [hp] at hprepared
  cases hprepared with
  | settled _ early => exact fun hfixed => early (Or.inl hfixed)

theorem pending_of_fixed {file : String} (hf : file ∈ files)
    (h : (batch.foretold start file).status = .fixed) :
    ∃ write, .pending write ∈ batch.prepareEach start files ∧ write.file = file := by
  have hmem : (start.run (batch.prepare file)).1 ∈ batch.prepareEach start files :=
    List.mem_map_of_mem hf
  have hprepared := batch.prepare_prepared start file
  rw [foretold] at h
  generalize (start.run (batch.prepare file)).1 = progress at h hmem hprepared
  cases hprepared with
  | settled _ early => exact absurd (Or.inl h) early
  | pending => exact ⟨_, hmem, rfl⟩

theorem isFile_of_pending {write : Pending} (h : .pending write ∈ batch.prepareEach start files) :
    start.disk.isFile write.path = true := by
  obtain ⟨hprepared, hfixed⟩ := of_mem_prepareEach h
  rw [hprepared.of_pending.2.1]
  exact isFile_of_fixed hfixed

/-- Files that are read find the world as it is. -/
theorem Swept.of_reads {α : Type} {ends : α → Prop} {script : Script α}
    (h : batch.Swept start listing done now) (hscript : script.Obeys Request.Reads ends) :
    batch.Swept start listing done (now.run script).2 where
  refusal_eq := (now.refusal_run script).trans h.refusal_eq
  shell_eq := (now.shell_run script).trans h.shell_eq
  grown := by
    rw [hscript.disk_run now]
    exact h.grown
  rewritten := by
    rw [hscript.disk_run now]
    exact h.rewritten

include hsteady hs haside happart in
/-- The files of a window are prepared as they would have been at the start. -/
theorem Swept.prepared_eq (h : batch.Swept start listing done now)
    (hdone : ∀ file ∈ done, file ∈ listing) (hfiles : ∀ file ∈ files, file ∈ listing)
    (hnew : ∀ file ∈ files, file ∉ done) :
    (now.run (batch.prepareAll files)).1 = batch.prepareEach start files :=
  run_prepareAll hsteady fun file hf => h.sameAt hs haside (hfiles file hf) fun _ hd =>
    not_fixedPlace happart hdone (hfiles file hf) (hnew file hf) hd

include hs haside in
theorem Swept.secured (h : batch.Swept start listing done now)
    (hdone : ∀ file ∈ done, file ∈ listing) {prepared : List Progress}
    (hfiles : ∀ file ∈ pendingFiles prepared, file ∈ listing) :
    batch.Swept start listing done (now.run (batch.secure prepared)).2 := by
  refine h.extend haside hdone (now.refusal_run _) (now.shell_run _)
    (secure_grown (h.grown.solid_here hs) prepared) (fun place hp => ?_) fun place hn => ?_
  · exact ownPlace_of_vaultPlace h.grown.toDevelops hfiles hp
  · obtain ⟨vault, hv, hway⟩ := hn
    exact newPlace_of_wayPlace hv h.grown.toDevelops hfiles hway

/-- Where a pending file is written is where its own path leads to. -/
theorem Swept.destination_of_pending (h : batch.Swept start listing done now) {write : Pending}
    (hw : .pending write ∈ batch.prepareEach start files)
    (hp : now.disk.destination write.path = some place) :
    start.disk.destination (batch.root.under ⟨write.file⟩) = some place := by
  rwa [h.grown.destination_eq, (of_mem_prepareEach hw).1.of_pending.2.1] at hp

include happart in
/-- Two pending files that are written to one place are the same. -/
theorem Swept.eq_of_destination (h : batch.Swept start listing done now)
    (hfiles : ∀ file ∈ files, file ∈ listing) {write other : Pending}
    (hw : .pending write ∈ batch.prepareEach start files)
    (ho : .pending other ∈ batch.prepareEach start files)
    (hp : now.disk.destination write.path = some place)
    (hp' : now.disk.destination other.path = some place) : write = other := by
  by_cases hsame : write.file = other.file
  · exact eq_of_mem_prepareEach hw ho hsame
  · exact absurd (h.destination_of_pending ho hp')
      (happart _ (hfiles _ (mem_prepareEach hw).1) _ (hfiles _ (mem_prepareEach ho).1) hsame place
        (h.destination_of_pending hw hp))

section Committing

variable (h : batch.Swept start listing done now) (hdone : ∀ file ∈ done, file ∈ listing)
  (hfiles : ∀ file ∈ files, file ∈ listing) (hnew : ∀ file ∈ files, file ∉ done)

include hs happart h hdone hfiles hnew in
/-- A file that is done is apart from those of the window, and keeps its text. -/
theorem Swept.rewritten_of_done {file : String} (hf : file ∈ done)
    (hfixed : batch.Fixes start file) :
    batch.Rewritten start.disk (now.run (commitAll (batch.prepareEach start files))).2.disk
      file := by
  have hcommitted := commitAll_committed now (batch.prepareEach start files)
  obtain ⟨data, text, hold, htext, hread⟩ := h.rewritten file hf hfixed
  refine ⟨data, text, hold, htext,
    (hcommitted.touched (h.grown.solid_here hs)).read hread ?_⟩
  rintro place hd ⟨write, -, hw, hp⟩
  rw [h.grown.destination_eq] at hd
  have hwf := (mem_prepareEach hw).1
  refine happart file (hdone file hf) write.file (hfiles _ hwf) ?_ place hd
    (h.destination_of_pending hw hp)
  rintro rfl
  exact hnew _ hwf hf

include hs happart h hfiles in
/-- A file of the window is given the text that the rules make of its old one. -/
theorem Swept.rewritten_of_window
    (hresults : (now.run (commitAll (batch.prepareEach start files))).1 =
      (batch.prepareEach start files).map predicted)
    {file : String} (hf : file ∈ files) (hfixed : batch.Fixes start file) :
    batch.Rewritten start.disk (now.run (commitAll (batch.prepareEach start files))).2.disk
      file := by
  have hcommitted := commitAll_committed now (batch.prepareEach start files)
  obtain ⟨write, hw, rfl⟩ := pending_of_fixed hf hfixed.2
  have hmem : write.fixed ∈ (now.run (commitAll (batch.prepareEach start files))).1 := by
    rw [hresults]
    exact List.mem_map.2 ⟨_, hw, rfl⟩
  -- the result tells which file was written last where this one is
  obtain ⟨other, ho, heq, hread⟩ := hcommitted.read_fixed (h.grown.solid_here hs)
    (fun write hw => h.grown.toDevelops.isFile (isFile_of_pending hw))
    (fun first hfirst second hsecond place hp hp' =>
      congrArg _ (h.eq_of_destination happart hfiles hfirst hsecond hp hp'))
    (fun _ hsettled => not_fixed_of_settled hsettled) hmem rfl
  obtain rfl := eq_of_mem_prepareEach ho hw (congrArg FileResult.path heq).symm
  obtain ⟨-, hpath, data, text, hold, htext, -, hbytes⟩ := (of_mem_prepareEach hw).1.of_pending
  rw [hpath, hbytes] at hread
  exact ⟨data, text, hold, htext, hread⟩

include hs happart h hdone hfiles hnew in
/-- Writing the files of a window gives them their text. -/
theorem Swept.committed (hreal : batch.dryRun = false)
    (hresults : (now.run (commitAll (batch.prepareEach start files))).1 =
      (batch.prepareEach start files).map predicted) :
    batch.Swept start listing (done ++ files)
      (now.run (commitAll (batch.prepareEach start files))).2 := by
  have hnow := h.grown.solid_here hs
  have hcommitted := commitAll_committed now (batch.prepareEach start files)
  have hold : start.disk.Grown now.disk
      (fun place => batch.OwnPlace start.disk listing place ∨
        batch.FixedPlace start (done ++ files) place) (batch.NewPlace start.disk listing) :=
    h.grown.mono (fun place hp => hp.imp_right FixedPlace.append) fun _ hn => hn
  refine ⟨(now.refusal_run _).trans h.refusal_eq, (now.shell_run _).trans h.shell_eq,
    hold.trans ⟨(hcommitted.touched hnow).mono ?_, fun place he _ => hcommitted.comes hnow
      (fun write hw => h.grown.toDevelops.isFile (isFile_of_pending hw)) he⟩,
    fun file hf hfixed => (List.mem_append.1 hf).elim
      (fun hf => rewritten_of_done hs happart h hdone hfiles hnew hf hfixed)
      fun hf => rewritten_of_window hs happart h hfiles hresults hf hfixed⟩
  rintro place ⟨write, -, hw, hp⟩
  exact Or.inr ⟨write.file, List.mem_append_right _ (mem_prepareEach hw).1,
    ⟨hreal, (of_mem_prepareEach hw).2⟩, h.destination_of_pending hw hp⟩

end Committing

include hs haside hquiet in
/-- The gate leaves the files that are done. -/
theorem Swept.verified (h : batch.Swept start listing done now)
    (hdone : ∀ file ∈ done, file ∈ listing) (first stop : Nat) :
    batch.Swept start listing done (now.run (batch.verify first stop)).2 := by
  have hlog : ∀ gate : Gate, ∀ place, gate.LogPlace now.disk place →
      gate.LogPlace start.disk place := by
    intro gate place hp
    rwa [Gate.LogPlace, h.grown.destination_eq, h.grown.destination_eq] at hp
  refine h.extend haside hdone (now.refusal_run _) (now.shell_run _)
    (verify_grown (h.grown.solid_here hs) fun gate hgate => ?_) (fun place hp => ?_)
    fun place hn => ?_
  · have hkeeps := hquiet first stop gate hgate
    rwa [FallibleHost.KeepsToLogs, ← h.shell_eq] at hkeeps
  · obtain ⟨gate, hgate, hp⟩ := hp
    exact Or.inr ⟨first, stop, gate, hgate, hlog gate place hp⟩
  · obtain ⟨gate, hgate, hway⟩ := hn
    exact Or.inr ⟨first, stop, gate, hgate,
      hway.imp h.grown.toDevelops.onTheWay_iff.1 (hlog gate place)⟩

include hsteady hs haside happart in
/-- The phases of a run do the files of its window, each as it would have been by itself. -/
theorem Swept.processed (h : batch.Swept start listing done now)
    (hdone : ∀ file ∈ done, file ∈ listing) (hfiles : ∀ file ∈ files, file ∈ listing)
    (hnew : ∀ file ∈ files, file ∉ done)
    (hsucceeds : batch.dryRun = false → batch.Succeeds now files) :
    (now.run (batch.process files)).1.2 = (batch.prepareEach start files).map predicted ∧
      batch.Swept start listing (done ++ files) (now.run (batch.process files)).2 := by
  have hprepared := h.prepared_eq hsteady hs haside happart hdone hfiles hnew
  have hread := h.of_reads (batch.prepareAll_obeys files)
  cases hdry : batch.dryRun with
  | true =>
    rw [process_eq_of_dry hdry, FallibleHost.run_bind, ← hprepared]
    refine ⟨rfl, hread.refusal_eq, hread.shell_eq,
      hread.grown.mono (fun place hp => hp.imp_right FixedPlace.append) fun _ hn => hn, ?_⟩
    rintro file - ⟨hreal, -⟩
    rw [hdry] at hreal
    cases hreal
  | false =>
    have hresults := process_of_succeeds hdry (hsucceeds hdry)
    rw [hprepared] at hresults
    refine ⟨hresults, ?_⟩
    have hchosen := (secure_of_isComplete (hsucceeds hdry).snapshot).trans hprepared
    have hphases := run_process_eq hdry now files
    dsimp only at hphases
    rw [hchosen] at hphases
    rw [hphases] at hresults ⊢
    have hpending : ∀ file ∈ pendingFiles (now.run (batch.prepareAll files)).1,
        file ∈ listing := by
      rw [hprepared]
      intro file hf
      obtain ⟨write, hw, rfl⟩ := mem_pendingFiles.1 hf
      exact hfiles _ (mem_prepareEach hw).1
    exact Swept.committed hs happart (hread.secured hs haside hdone hpending) hdone hfiles hnew hdry
      hresults

include hsteady hs haside happart hquiet in
/-- **A run does the files of its window**, each as it would have been by itself. -/
theorem Swept.run (h : batch.Swept start listing done now) (names : Names) (window : Window)
    (hdone : ∀ file ∈ done, file ∈ listing)
    (hfiles : ∀ file ∈ window.of names.toList, file ∈ listing)
    (hnew : ∀ file ∈ window.of names.toList, file ∉ done)
    (hsucceeds : batch.dryRun = false → batch.Succeeds now (window.of names.toList)) :
    (now.run (batch.run names window)).1.results =
        (window.of names.toList).map (batch.foretold start) ∧
      batch.Swept start listing (done ++ window.of names.toList)
        (now.run (batch.run names window)).2 := by
  obtain ⟨hresults, hswept⟩ := h.processed hsteady hs haside happart hdone hfiles hnew hsucceeds
  have hended : ∀ file ∈ done ++ window.of names.toList, file ∈ listing :=
    fun file hf => (List.mem_append.1 hf).elim (hdone file) (hfiles file)
  constructor
  · rw [results_run, hresults, prepareEach, List.map_map, List.map_map]
    rfl
  · rw [run_eq, FallibleHost.run_bind, FallibleHost.run_bind, FallibleHost.run_bind]
    exact (hswept.verified hs haside hquiet hended _ _).of_reads (.request .now trivial)

end Sweeping

/-! ### All windows -/

section

variable {names : Names} (hsteady : start.Steady) (hs : start.disk.Solid start.disk.here)
  (hsize : names.size ≤ Window.limit) (haside : batch.Aside start.disk names.toList)
  (happart : ∀ file ∈ names.toList, ∀ other ∈ names.toList, file ≠ other →
    start.disk.Apart (batch.root.under ⟨file⟩) (batch.root.under ⟨other⟩))
  (hquiet : ∀ first stop gate, batch.gateAt? first stop = some gate → start.KeepsToLogs gate.job)

include hsteady hs hsize haside happart hquiet in
/-- **Window after window does the files of the listing.** -/
theorem Swept.sweep (first : Nat) (sizes : List Nat)
    (h : batch.Swept start names.toList (names.toList.take first) now)
    (hsucceeds : batch.dryRun = false →
      batch.SucceedsThrough names now (Window.cut first sizes)) :
    (now.run (batch.sweep names (Window.cut first sizes))).1.flatMap (·.results) =
        ((names.toList.drop first).take (Count.total sizes)).map (batch.foretold start) ∧
      batch.Swept start names.toList (names.toList.take (first + Count.total sizes))
        (now.run (batch.sweep names (Window.cut first sizes))).2 := by
  -- window by window; what carries it is that the files before the next one are done
  induction sizes generalizing first now with
  | nil => exact ⟨rfl, h⟩
  | cons size sizes ih =>
    have hof : (⟨first, size⟩ : Window).of names.toList = (names.toList.drop first).take size :=
      Window.of_eq _ hsize
    have hnodup : names.toList.Nodup := names.ascending.nodup
    obtain ⟨hresults, hswept⟩ := h.run hsteady hs haside happart hquiet names ⟨first, size⟩
      (fun _ hf => List.mem_of_mem_take hf)
      (fun _ hf => List.mem_of_mem_drop (List.mem_of_mem_take (hof ▸ hf)))
      (fun _ hf hdone => List.disjoint_take_drop hnodup (Nat.le_refl first) hdone
        (List.mem_of_mem_take (hof ▸ hf)))
      fun hreal => (hsucceeds hreal).1
    rw [hof] at hresults hswept
    rw [← List.take_add] at hswept
    obtain ⟨hothers, hlast⟩ := ih (first + size) hswept fun hreal => (hsucceeds hreal).2
    rw [Window.cut, sweep, FallibleHost.run_bind, FallibleHost.run_bind, Count.total]
    refine ⟨?_, Nat.add_assoc first size (Count.total sizes) ▸ hlast⟩
    show List.flatMap _ (_ :: _) = _
    rw [List.flatMap_cons, hresults, hothers, ← List.map_append, List.take_add, List.drop_drop]

end

/-! ### Two worlds -/

/-- Where neither the vault nor the logs are, the disk is the same when the same files are
done. -/
theorem Swept.file?_eq (h : batch.Swept start listing done now)
    (h' : batch.Swept start listing done after) (hp : ¬ batch.OwnPlace start.disk listing place) :
    now.disk.file? place = after.disk.file? place := by
  by_cases hfixed : batch.FixedPlace start done place
  · obtain ⟨file, hf, hfixes, hd⟩ := hfixed
    exact (h.rewritten file hf hfixes).file?_eq (h'.rewritten file hf hfixes)
      (isFile_of_fixed hfixes.2) h.grown.toDevelops h'.grown.toDevelops hd
  · rw [h.grown.file?_eq place fun hplace => hplace.elim hp hfixed,
      h'.grown.file?_eq place fun hplace => hplace.elim hp hfixed]

section

variable (hs : start.disk.Solid start.disk.here) (haside : batch.Aside start.disk listing)
  (happart : ∀ file ∈ listing, ∀ other ∈ listing, file ≠ other →
    start.disk.Apart (batch.root.under ⟨file⟩) (batch.root.under ⟨other⟩))

include hs haside happart in
/-- Every file gives the same to read when the same files are done. -/
theorem Swept.read_eq (h : batch.Swept start listing done now)
    (h' : batch.Swept start listing done after) (hdone : ∀ file ∈ done, file ∈ listing)
    {file : String} (hf : file ∈ listing) :
    now.disk.read (batch.root.under ⟨file⟩) = after.disk.read (batch.root.under ⟨file⟩) := by
  by_cases hfixed : file ∈ done ∧ batch.Fixes start file
  · obtain ⟨data, hnow, hafter⟩ :=
      (h.rewritten file hfixed.1 hfixed.2).agree (h'.rewritten file hfixed.1 hfixed.2)
    rw [hnow, hafter]
  · have hkept : ∀ place, start.disk.destination (batch.root.under ⟨file⟩) = some place →
        ¬ batch.FixedPlace start done place := by
      rintro place hd ⟨other, ho, hfixes, hplace⟩
      refine happart file hf other (hdone other ho) ?_ place hd hplace
      rintro rfl
      exact hfixed ⟨ho, hfixes⟩
    rw [(h.sameAt hs haside hf hkept).read_eq, (h'.sameAt hs haside hf hkept).read_eq]

end

end Batch

end

/-! ### Runs -/

/-- **Batching does not change the outcome.**  However a listing is cut into windows, all of
them together come to what a single run comes to. -/
theorem Batch.sweep_eq_run (world : FallibleHost) (batch : Batch) (files : Names)
    (sizes : List Nat) (hsteady : world.Steady) (hs : world.disk.Solid world.disk.here)
    (hfiles : files.size ≤ Window.limit) (hsizes : files.size ≤ Count.total sizes)
    (happart : ∀ file ∈ files.toList, ∀ other ∈ files.toList, file ≠ other →
      world.disk.Apart (batch.root.under ⟨file⟩) (batch.root.under ⟨other⟩))
    (haside : batch.Aside world.disk files.toList)
    (hquiet : ∀ first stop gate, batch.gateAt? first stop = some gate →
      world.KeepsToLogs gate.job)
    (hwhole : batch.dryRun = false → batch.Succeeds world files.toList)
    (hparts : batch.dryRun = false → batch.SucceedsThrough files world (Window.cut 0 sizes)) :
    let whole := world.run (batch.run files ⟨0, files.size⟩)
    let parts := world.run (batch.sweep files (Window.cut 0 sizes))
    parts.1.flatMap (·.results) = whole.1.results ∧
      (∀ file ∈ files.toList, parts.2.disk.read (batch.root.under ⟨file⟩) =
        whole.2.disk.read (batch.root.under ⟨file⟩)) ∧
      ∀ place, ¬ batch.OwnPlace world.disk files.toList place →
        parts.2.disk.file? place = whole.2.disk.file? place := by
  -- both ways come to a world in which all files are done, and that is told in one way only
  intro whole parts
  have hall : (⟨0, files.size⟩ : Window).of files.toList = files.toList := by
    rw [Window.of_eq _ hfiles]
    exact List.take_length
  have hstart : batch.Swept world files.toList [] world := .refl _ _ _
  obtain ⟨hresults, hswept⟩ := hstart.run hsteady hs haside happart hquiet files ⟨0, files.size⟩
    (fun _ hf => nomatch hf) (fun _ hf => hall ▸ hf) (fun _ _ hf => nomatch hf)
    fun hreal => hall.symm ▸ hwhole hreal
  obtain ⟨hresults', hswept'⟩ := Batch.Swept.sweep hsteady hs hfiles haside happart hquiet
    0 sizes hstart hparts
  rw [hall] at hresults hswept
  have hsum : files.toList.take (0 + Count.total sizes) = files.toList := by
    rw [Nat.zero_add]
    exact List.take_of_length_le hsizes
  rw [hsum] at hswept'
  rw [List.drop_zero, ← Nat.zero_add (Count.total sizes), hsum] at hresults'
  refine ⟨hresults'.trans hresults.symm, fun file hf => ?_, fun place hp =>
    Batch.Swept.file?_eq hswept' hswept hp⟩
  exact Batch.Swept.read_eq hs haside happart hswept' hswept (fun _ hf => hf) hf

namespace Sample

theorem aside : Sample.batch.Aside disk files.toList where
  reached file hf place hd hown := by
    rcases hown with hvault | ⟨first, stop, gate, hgate, -⟩
    · exact spared file hf place hd hvault
    · cases hgate
  missing file hf hnone := by
    have hpresent : ∀ file ∈ files.toList,
        disk.present (Sample.batch.root.under ⟨file⟩) = true := by
      decide +kernel
    have h := hpresent file hf
    rw [Disk.present, hnone] at h
    cases h

/-- A batch in which no snapshot and no write fails. -/
theorem succeeds_of_run {start : FallibleHost} {listed : List String}
    (hsnapshot :
      let prepared := start.run (Sample.batch.prepareAll listed)
      let pending := prepared.1.filterMap Progress.pending?
      Manifest.isComplete
        (prepared.2.run (vault.snapshot (pending.map (·.file))).attempt).1 = true)
    (hwrites : ∀ exchange ∈ start.log (Sample.batch.process listed), exchange.carried) :
    Sample.batch.Succeeds start listed :=
  ⟨fun _ hv _ => by cases hv; exact hsnapshot, hwrites⟩

/-- A window of two files, and one with more room than there are files left. -/
theorem succeeds_through : Sample.batch.SucceedsThrough files (Sample.world fun _ => true)
    (Window.cut 0 [2, 5]) :=
  ⟨succeeds_of_run (by decide +kernel) (by decide +kernel),
    succeeds_of_run (by decide +kernel) (by decide +kernel), trivial⟩

theorem succeeds_whole : Sample.batch.Succeeds (Sample.world fun _ => true) files.toList :=
  succeeds_of_run (by decide +kernel) (by decide +kernel)

/-- Two windows come to what one comes to, and files are fixed in both of them. -/
theorem windows_agree :
    let start := Sample.world fun _ => true
    let whole := start.run (Sample.batch.run files ⟨0, files.size⟩)
    (start.run (Sample.batch.sweep files (Window.cut 0 [2, 5]))).1.flatMap (·.results) =
        whole.1.results ∧
      whole.1.results.map (·.status) = [.fixed, .unchanged, .fixed] :=
  ⟨(Batch.sweep_eq_run _ Sample.batch files [2, 5] (fun _ _ => rfl) solid (by decide) (by decide)
      (by decide +kernel) aside (fun _ _ _ hgate => nomatch hgate) (fun _ => succeeds_whole)
      fun _ => succeeds_through).1,
    by decide +kernel⟩

/-! ### Where windows matter -/

/-- A project with a link to one of its files. -/
def linked : FallibleHost where
  host := {
    disk := {
      entries := [
        (["p"], .directory),
        (["p", "a.css"], .file "4".toUTF8),
        (["p", "l.css"], .link "a.css")]
      here := ["p"] } }

/-- The names of the file and of the link. -/
def linkedFiles : Names :=
  ⟨["a.css", "l.css"], by decide⟩

/-- A project with a link that goes through the directory of the vault, before there is one. -/
def detoured : FallibleHost where
  host := {
    disk := {
      entries := [
        (["p"], .directory),
        (["p", "a.css"], .file "4".toUTF8),
        (["p", "b.css"], .file "4".toUTF8),
        (["p", "l"], .link "backups/..")]
      here := ["p"] } }

/-- The name of one file, and that of another one by way of the link. -/
def detouredFiles : Names :=
  ⟨["a.css", "l/b.css"], by decide⟩

/-- The states of the files after a single run, and those after two runs of one file each. -/
def bothStates (start : FallibleHost) (names : Names) : List FileStatus × List FileStatus :=
  ((start.run (Sample.batch.run names ⟨0, 2⟩)).1.results.map (·.status),
    ((start.run (Sample.batch.sweep names (Window.cut 0 [1, 1]))).1.flatMap (·.results)).map
      (·.status))

/-- Nothing fails in a single run nor in two runs of one file each, and no file lies in the
directory of the vault. -/
structure Undisturbed (start : FallibleHost) (names : Names) : Prop where
  whole : Sample.batch.Succeeds start names.toList
  parts : Sample.batch.SucceedsThrough names start (Window.cut 0 [1, 1])
  disjoint : ∀ file ∈ names.toList,
    ∀ place ∈ start.disk.destination (Sample.batch.root.under ⟨file⟩), ¬ ["p", "backups"] <+: place

theorem undisturbed_linked : Undisturbed linked linkedFiles where
  whole := succeeds_of_run (by decide +kernel) (by decide +kernel)
  parts := ⟨succeeds_of_run (by decide +kernel) (by decide +kernel),
    succeeds_of_run (by decide +kernel) (by decide +kernel), trivial⟩
  disjoint := by decide +kernel

theorem undisturbed_detoured : Undisturbed detoured detouredFiles where
  whole := succeeds_of_run (by decide +kernel) (by decide +kernel)
  parts := ⟨succeeds_of_run (by decide +kernel) (by decide +kernel),
    succeeds_of_run (by decide +kernel) (by decide +kernel), trivial⟩
  disjoint := by decide +kernel

/-- **A link can make the windows matter**, though nothing fails and the vault lies in a
directory of its own: the second run finds the file that it leads to fixed, or it finds a
file at all only when the first one has made the vault. -/
theorem windows_differ :
    Undisturbed linked linkedFiles ∧
      bothStates linked linkedFiles = ([.fixed, .fixed], [.fixed, .unchanged]) ∧
      Undisturbed detoured detouredFiles ∧
      bothStates detoured detouredFiles = ([.fixed, .errored], [.fixed, .fixed]) :=
  ⟨undisturbed_linked, by decide +kernel, undisturbed_detoured, by decide +kernel⟩

end Sample

end StyleTokens

/-
Batches that nobody sees.

A batch writes copies, sources that are there, and logs.  Where someone looks who sees
neither the places of the copies nor those of the logs, the disk looks the same after it.

* `Batch.Unseen` — copies that go to places where nobody looks;
* `unfolds_process` — the phases of a batch;
* `Gate.Quiet` — a gate that neither brings nor takes what is seen, its logs apart;
* `looksLike_verify` — the gate after them.
-/
import StyleTokens.Proofs.Batch.Statuses
import StyleTokens.Proofs.Batch.Verification
import StyleTokens.Proofs.Disk.Look

namespace StyleTokens

variable {disk : Disk} {seen : Place → Prop} {world : FallibleHost} {path root : Path}

theorem mayPut_unseen (h : ∀ place, disk.destination path = some place → ¬ seen place) :
    MayPut (Request.Unseen disk seen) path :=
  ⟨fun _ place hd hs => absurd hs (h place hd), fun _ _ => trivial⟩

/-- A gate whose job neither brings nor takes a file that is seen, but for its logs. -/
def FallibleHost.Quiet (world : FallibleHost) (gate : Gate) (root : Path) (seen : Place → Prop) :
    Prop :=
  ∀ disk : Disk, disk.LooksLike (world.host.shell gate.job disk).disk root
    fun place => seen place ∧ ¬ gate.LogPlace disk place

namespace Batch

variable {batch : Batch}

/-! ### The phases -/

/-- The copies of a batch go to places where nobody looks. -/
def Unseen (batch : Batch) (disk : Disk) (seen : Place → Prop) : Prop :=
  ∀ vault, batch.vault = some vault → ∀ files place, vault.SnapshotPlace disk files place →
    ¬ seen place

theorem secure_unseen (h : batch.Unseen disk seen) (prepared : List Progress) :
    (batch.secure prepared).Obeys (Request.Unseen disk seen) fun _ => True := by
  refine secure_asks fun vault hv => ?_
  have hplace : ∀ place, vault.SnapshotPlace disk (pendingFiles prepared) place → ¬ seen place :=
    h vault hv _
  refine Script.Obeys.mono (Vault.snapshot_asks (fun _ h => h.unseen) (fun file hf => ⟨?_, ?_⟩) ?_)
    (fun _ h => h) fun _ _ => trivial
  · exact mayPut_unseen fun place hp => hplace place (Or.inr ⟨file, hf, Or.inl hp⟩)
  · exact mayPut_unseen fun place hp => hplace place (Or.inr ⟨file, hf, Or.inr hp⟩)
  · exact mayPut_unseen fun place hp => hplace place (Or.inl hp)

/-- **After the phases of a batch the disk looks the same.** -/
theorem unfolds_process (h : batch.Unseen world.disk seen) (hs : world.disk.Solid world.disk.here)
    (root : Path) (files : List String) :
    world.disk.Unfolds (world.run (batch.process files)).2.disk root seen := by
  cases hdry : batch.dryRun with
  | true =>
    rw [(process_obeys_of_dry hdry files).disk_run world]
    exact .refl _ _ _
  | false =>
    rw [run_process_eq hdry]
    have hprepared := batch.prepareAll_prepared world files
    have hdisk := (batch.prepareAll_obeys files).disk_run world
    rw [← hdisk] at h hs hprepared ⊢
    generalize world.run (batch.prepareAll files) = prepared at h hs hprepared ⊢
    have hexists : ∃ covered, Chooses prepared.1 (prepared.2.run (batch.secure prepared.1)).1.2
        covered := exists_chooses hs prepared.1
    obtain ⟨covered, hchooses⟩ := hexists
    refine Script.Obeys.unfolds (commitAll_asks fun write hw place hd _ => ?_) hs
      ((secure_unseen h prepared.1).unfolds hs (.refl _ _ _))
    -- what is pending is a file that was read
    obtain ⟨-, data, text, hread, hfile, -, -⟩ := hchooses.prepared_of_mem hprepared hw
    obtain ⟨other, ho, hdata⟩ := Disk.file?_of_isFile hfile hread
    obtain rfl : other = place := Option.some.inj (ho.symm.trans hd)
    rw [hdata]
    rfl

/-! ### The gate -/

/-- **After a quiet gate the disk looks the same**, if nobody looks at its logs. -/
theorem looksLike_verify {first stop : Nat} (hs : world.disk.Solid world.disk.here)
    (hgate : ∀ gate, batch.gateAt? first stop = some gate →
      (∀ place, gate.LogPlace world.disk place → ¬ seen place) ∧ world.Quiet gate root seen) :
    world.disk.LooksLike (world.run (batch.verify first stop)).2.disk root seen := by
  rcases batch.verify_cases first stop with ⟨-, reason, hv⟩ | ⟨gate, hsome, -⟩
  · rw [hv]
    exact .refl _ _ _
  obtain ⟨hlogs, hquiet⟩ := hgate gate hsome
  have hlog : Gate.MayLog (Request.Unseen world.disk seen) gate :=
    ⟨trivial, fun place hp hseen => absurd hseen (hlogs place (Or.inl hp)),
      fun place hp hseen => absurd hseen (hlogs place (Or.inr hp))⟩
  -- the logs are made, and then the job has the disk
  have hended := (verify_asks (fun _ h => h.unseen) hsome hlog).run
    (fun state => world.disk.Unfolds state.disk root seen ∧
      state.host.shell = world.host.shell)
    (fun state request hr ⟨hstate, hshell⟩ =>
      ⟨hstate.step hs hr, (state.shell_reply request).trans hshell⟩) ⟨.refl _ _ _, rfl⟩
  rcases hended with ⟨hunfolds, -⟩ | ⟨state, ⟨hunfolds, hshell⟩, hdisk⟩
  · exact hunfolds.looksLike
  · rw [hdisk]
    refine hunfolds.looksLike.trans ?_
    rcases state.reply_cases (.shell gate.job) with ⟨_, _, -, hr⟩ | hr
    · rw [hr]
      exact .refl _ _ _
    · rw [hr]
      have hjob := hquiet state.disk
      rw [← hshell] at hjob
      refine hjob.mono fun place hseen => ⟨hseen, fun hp => hlogs place ?_ hseen⟩
      rwa [Gate.LogPlace, hunfolds.develops.destination_eq, hunfolds.develops.destination_eq] at hp

end Batch

end StyleTokens

/-
Worlds that answer in the same way at any time.

Whether a file can be read is often decided by the file and not by the moment.  Where
that is so, what a batch finds in a file depends on nothing but that file, so that the
files of a window can be prepared one by one, in any company.

* `FallibleHost.Steady` — what is refused does not depend on when it is asked;
* `FallibleHost.SameAt` — two worlds in which one path shows the same;
* `Steady.run_readText` — the text that is read there is the same;
* `Batch.run_prepareAll` — files are prepared one by one.
-/
import StyleTokens.Proofs.Batch.Results
import StyleTokens.Proofs.World.Frame

namespace StyleTokens

variable {α : Type} {world later last : FallibleHost} {path : Path}

namespace FallibleHost

/-- What is refused does not depend on when it is asked. -/
def Steady (world : FallibleHost) : Prop :=
  ∀ n request, world.refusal n request = world.refusal 0 request

theorem Steady.of_eq (h : world.Steady) (hr : later.refusal = world.refusal) : later.Steady := by
  intro n request
  rw [hr]
  exact h n request

theorem Steady.run (h : world.Steady) (script : Script α) : (world.run script).2.Steady :=
  h.of_eq (world.refusal_run script)

/-- Two worlds with one plan of refusals, in which a path shows the same. -/
structure SameAt (world later : FallibleHost) (path : Path) : Prop where
  refusal_eq : later.refusal = world.refusal
  read_eq : later.disk.read path = world.disk.read path
  size_eq : later.disk.size path = world.disk.size path

namespace SameAt

theorem refl (world : FallibleHost) (path : Path) : world.SameAt world path :=
  ⟨rfl, rfl, rfl⟩

theorem trans (h : world.SameAt later path) (h' : later.SameAt last path) :
    world.SameAt last path :=
  ⟨h'.refusal_eq.trans h.refusal_eq, h'.read_eq.trans h.read_eq, h'.size_eq.trans h.size_eq⟩

/-- A script that only reads changes nothing for any path. -/
theorem of_reads {ends : α → Prop} {script : Script α} (h : script.Obeys Request.Reads ends)
    (world : FallibleHost) (path : Path) : world.SameAt (world.run script).2 path where
  refusal_eq := world.refusal_run script
  read_eq := by rw [h.disk_run world]
  size_eq := by rw [h.disk_run world]

end SameAt

/-! ### What is read -/

/-- In a steady world a request is answered by the refusal of it, if there is one, and
else by the host. -/
theorem Steady.reply_eq (h : world.Steady) (request : Request) :
    (world.reply request).1 =
      (((world.refusal 0 request).bind (Request.refusal? · request)).getD
        (world.host.reply request).1) := by
  rw [reply, h world.asked request]
  cases (world.refusal 0 request).bind (Request.refusal? · request) <;> rfl

theorem Steady.reply_read (h : world.Steady) (hsame : world.SameAt later path) :
    (later.reply (.read path)).1 = (world.reply (.read path)).1 := by
  rw [(h.of_eq hsame.refusal_eq).reply_eq, h.reply_eq, hsame.refusal_eq]
  exact congrArg _ hsame.read_eq

theorem Steady.reply_size (h : world.Steady) (hsame : world.SameAt later path) :
    (later.reply (.size path)).1 = (world.reply (.size path)).1 := by
  rw [(h.of_eq hsame.refusal_eq).reply_eq, h.reply_eq, hsame.refusal_eq]
  exact congrArg _ hsame.size_eq

theorem Steady.run_readText (h : world.Steady) (hsame : world.SameAt later path) :
    (later.run (Script.readText path)).1 = (world.run (Script.readText path)).1 := by
  rw [Script.readText, run_bind, run_bind, run_request, run_request, h.reply_read hsame]
  cases (world.reply (.read path)).1 with
  | error cause => rfl
  | ok data =>
    dsimp only
    cases String.fromUTF8? data <;> rfl

end FallibleHost

open FallibleHost

namespace Batch

variable {batch : Batch}

/-- What a file is found to be, from its size and its text. -/
def judge (batch : Batch) (file : String) (size : Except IoCause Nat)
    (text : Except IoCause String) : Progress :=
  if batch.exclusion.excludes file then .settled ⟨file, .skipped⟩
  else
    match text with
    | .error cause =>
      .settled ⟨file, .errored (size.toOption.getD 0) ("read failed: " ++ cause.message)⟩
    | .ok text =>
      if (batch.ruleSet.revise text.toList).changed then
        .pending ⟨file, batch.root.under ⟨file⟩, batch.ruleSet.revise text.toList,
          size.toOption.getD 0⟩
      else
        .settled ⟨file, .unchanged (size.toOption.getD 0)
          (batch.ruleSet.revise text.toList).unmapped⟩

/-- In a steady world a file is judged by its size and its text. -/
theorem run_prepare (h : world.Steady) (file : String) :
    (world.run (batch.prepare file)).1 =
      batch.judge file (world.reply (.size (batch.root.under ⟨file⟩))).1
        (world.run (Script.readText (batch.root.under ⟨file⟩))).1 := by
  unfold prepare judge
  split
  · rfl
  · have hsame : world.SameAt (world.reply (.size (batch.root.under ⟨file⟩))).2
        (batch.root.under ⟨file⟩) := .of_reads (.request (.size _) trivial) world _
    rw [run_bind, run_bind, run_request, h.run_readText hsame]
    cases (world.run (Script.readText (batch.root.under ⟨file⟩))).1 with
    | error cause => rfl
    | ok text =>
      dsimp only
      split <;> rfl

theorem run_prepare_of_sameAt (h : world.Steady) {file : String}
    (hsame : world.SameAt later (batch.root.under ⟨file⟩)) :
    (later.run (batch.prepare file)).1 = (world.run (batch.prepare file)).1 := by
  rw [run_prepare h, run_prepare (h.of_eq hsame.refusal_eq), h.run_readText hsame,
    h.reply_size hsame]

/-- **Files are prepared one by one**, each as it would be alone and at another time. -/
theorem run_prepareAll (h : world.Steady) {files : List String}
    (hsame : ∀ file ∈ files, world.SameAt later (batch.root.under ⟨file⟩)) :
    (later.run (batch.prepareAll files)).1 =
      files.map fun file => (world.run (batch.prepare file)).1 := by
  induction files generalizing later with
  | nil => rfl
  | cons file files ih =>
    rw [prepareAll, run_bind, run_bind, List.map_cons,
      run_prepare_of_sameAt h (hsame file List.mem_cons_self)]
    refine congrArg (_ :: ·) (ih fun other ho => ?_)
    exact (hsame other (List.mem_cons_of_mem _ ho)).trans
      (.of_reads (batch.prepare_obeys file) later _)

end Batch

end StyleTokens

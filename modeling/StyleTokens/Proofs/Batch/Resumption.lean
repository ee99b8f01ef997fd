/-
Going on where a batch has stopped.

The only thing that is carried from one batch to the next is the start that the
report tells.  That is enough: run after run, the windows cover the listing from the
first start to its end, and whatever becomes of single files, no window is cut short.

* `Batch.resume` — one run after another, each from where the report tells to go on;
* `BatchReport.Accounts.nextStart?_eq` — where that is;
* `runsNeeded` — how often a listing has to be gone on with;
* `Exhausts` — reports that lead from a start to the end of a listing;
* `resume_exhausts` — the runs end, and their reports are such.

Design notes: `resume` is told how many runs to make at most, and says where it was
stopped if there were more to make.  The bound plays no part once it is large enough.
-/
import Mathlib.Data.List.Nodup
import StyleTokens.Proofs.Batch.Results

namespace StyleTokens

/-- Runs the window at `start`, and the next one if the report tells of one, `runs` times
at most.  Tells where to go on, if there is more to do. -/
def Batch.resume (batch : Batch) (files : Names) (size : Nat) :
    (runs start : Nat) → Script (List BatchReport × Option Nat)
  | 0, start => return ([], some start)
  | runs + 1, start => do
    let report ← batch.run files ⟨start, size⟩
    match report.nextStart? with
    | none => return ([report], none)
    | some next =>
      let (reports, left) ← batch.resume files size runs next
      return (report :: reports, left)

/-- The number of runs that lead from a start to the end of a listing of `total` files.  A
start behind the end takes one run, which finds nothing to do. -/
def runsNeeded (total size start : Nat) : Nat :=
  max 1 ((total - start + (size - 1)) / size)

theorem runsNeeded_of_last {total size start : Nat} (hsize : 0 < size)
    (h : total ≤ start + size) : runsNeeded total size start = 1 := by
  have : (total - start + (size - 1)) / size < 2 :=
    (Nat.div_lt_iff_lt_mul hsize).2 (by omega)
  rw [runsNeeded]
  omega

theorem runsNeeded_of_more {total size start : Nat} (hsize : 0 < size)
    (h : start + size < total) :
    runsNeeded total size start = runsNeeded total size (start + size) + 1 := by
  have hshift : total - start + (size - 1) = (total - (start + size) + (size - 1)) + size := by
    omega
  have hrest : 0 < (total - (start + size) + (size - 1)) / size :=
    Nat.div_pos (by omega) hsize
  rw [runsNeeded, runsNeeded, hshift, Nat.add_div_right _ hsize]
  omega

namespace BatchReport

/-- The files of a report. -/
def paths (report : BatchReport) : List String :=
  report.results.map (·.path)

/-- **Where the next batch starts**: at the end of the window, if files are left there. -/
theorem Accounts.nextStart?_eq {report : BatchReport} {files : List String} {window : Window}
    (h : report.Accounts files window) : report.nextStart? =
      if window.start + window.size < files.length then some (window.start + window.size)
      else none := by
  have hcount := h.processedCount_eq_min
  have hend := h.endIndex_eq
  have hleft := h.remainingCount_eq
  rw [nextStart?]
  by_cases hmore : window.start + window.size < files.length
  · rw [if_pos hmore, if_pos (by omega), show report.endIndex = window.start + window.size by omega]
  · rw [if_neg hmore, if_neg (by omega)]

end BatchReport

/-- Reports that lead from a start to the end of a listing, window by window. -/
structure Exhausts (files : List String) (size start : Nat) (reports : List BatchReport) :
    Prop where
  length_eq : reports.length = runsNeeded files.length size start
  /-- Every file from the start on, once and in order. -/
  paths : reports.flatMap BatchReport.paths = files.drop start
  /-- Every report is on the window that the one before it tells. -/
  starts : reports.map (·.startIndex) = List.range' start reports.length size
  /-- The end of a window is the sum of two numbers that does not pass the limit. -/
  bounded : ∀ report ∈ reports, report.endIndex = report.startIndex + report.results.length ∧
    report.endIndex ≤ Window.limit

namespace Exhausts

theorem last {report : BatchReport} {files : List String} {size start : Nat}
    (hsize : 0 < size) (h : report.Accounts files ⟨start, size⟩)
    (hstart : report.startIndex = start) (hlast : ¬ start + size < files.length) :
    Exhausts files size start [report] where
  length_eq := (runsNeeded_of_last hsize (by omega)).symm
  paths := by
    rw [List.flatMap_singleton, BatchReport.paths, h.paths, List.take_of_length_le]
    rw [List.length_drop]
    show files.length - start ≤ size
    omega
  starts := by simp [hstart]
  bounded := by
    intro other ho
    obtain rfl := List.mem_singleton.1 ho
    exact ⟨by rw [h.endIndex_eq, hstart, h.processedCount_eq], h.endIndex_le⟩

theorem more {report : BatchReport} {reports : List BatchReport} {files : List String}
    {size start : Nat} (hsize : 0 < size) (h : report.Accounts files ⟨start, size⟩)
    (hstart : report.startIndex = start) (hmore : start + size < files.length)
    (hrest : Exhausts files size (start + size) reports) :
    Exhausts files size start (report :: reports) where
  length_eq := by
    rw [List.length_cons, hrest.length_eq, runsNeeded_of_more hsize hmore]
  paths := by
    rw [List.flatMap_cons, hrest.paths, BatchReport.paths, h.paths, ← List.drop_drop]
    exact List.take_append_drop size _
  starts := by
    rw [List.map_cons, hrest.starts, hstart, List.length_cons, List.range'_succ]
  bounded := by
    intro other ho
    rcases List.mem_cons.1 ho with rfl | ho
    · exact ⟨by rw [h.endIndex_eq, hstart, h.processedCount_eq], h.endIndex_le⟩
    · exact hrest.bounded other ho

end Exhausts

namespace Batch

/-- The runs come to the end of the listing, whatever the world replies. -/
theorem resume_obeys (batch : Batch) (files : Names) {size : Nat} (hsize : 0 < size)
    (hfiles : files.size ≤ Window.limit) (runs start : Nat) (hstart : start ≤ Window.limit)
    (hruns : runsNeeded files.size size start ≤ runs) :
    (batch.resume files size runs start).Obeys (fun _ => True) fun done =>
      done.2 = none ∧ Exhausts files.toList size start done.1 := by
  induction runs generalizing start with
  | zero =>
    rw [runsNeeded] at hruns
    omega
  | succ runs ih =>
    refine .bind (batch.run_obeys files ⟨start, size⟩ hfiles hstart) fun report h => ?_
    obtain ⟨haccounts, hreport⟩ := h
    rw [haccounts.nextStart?_eq]
    by_cases hmore : start + size < files.toList.length
    · rw [if_pos hmore]
      -- the next start is a number of the listing, and one run fewer is needed from there
      have hsmall : start + size ≤ Window.limit := Nat.le_trans (Nat.le_of_lt hmore) hfiles
      have hfewer : runsNeeded files.size size (start + size) ≤ runs := by
        have hone : runsNeeded files.size size start =
            runsNeeded files.size size (start + size) + 1 := runsNeeded_of_more hsize hmore
        omega
      refine .bind (ih (start + size) hsmall hfewer) fun done hdone => .pure ?_
      exact ⟨hdone.1, .more hsize haccounts hreport hmore hdone.2⟩
    · rw [if_neg hmore]
      exact .pure ⟨rfl, .last hsize haccounts hreport hmore⟩

/-- **Going on from report to report visits every file once and ends**, whatever goes wrong
on the way. -/
theorem resume_exhausts (world : FallibleHost) (batch : Batch) (files : Names)
    (size runs start : Nat) (hsize : 0 < size) (hfiles : files.size ≤ Window.limit)
    (hstart : start ≤ Window.limit) (hruns : runsNeeded files.size size start ≤ runs) :
    let done := (world.run (batch.resume files size runs start)).1
    done.2 = none ∧ Exhausts files.toList size start done.1 ∧
      (done.1.flatMap BatchReport.paths).Nodup := by
  obtain ⟨hleft, hdone⟩ := (batch.resume_obeys files hsize hfiles runs start hstart hruns).result
  refine ⟨hleft, hdone, ?_⟩
  rw [hdone.paths]
  exact (files.ascending.sublist (List.drop_sublist _ _)).nodup

end Batch

/-- The small project two files at a time, where no file can be written. -/
theorem Sample.exhausted_by_two_runs :
    (0 < 2 ∧ files.size ≤ Window.limit ∧ 0 ≤ Window.limit ∧ runsNeeded files.size 2 0 ≤ 2) ∧
      let done := ((world fun _ => false).run (batch.resume files 2 2 0)).1
      done.2 = none ∧ Exhausts files.toList 2 0 done.1 ∧
        (done.1.flatMap BatchReport.paths).Nodup :=
  ⟨⟨by decide, by decide, by decide, by decide⟩, Batch.resume_exhausts _ batch files 2 2 0
    (by decide) (by decide) (by decide) (by decide)⟩

end StyleTokens

/-
Reports that are filed side by side.

Several commands may file reports in one directory at the same time.  Each of them tries
one name after another, and in between the others take names away from it.

* `ReportStore.Filing`, `ReportStore.pool` — documents that are to be filed, each by a
  script of its own;
* `ReportStore.Stage` — where a filing stands after some turns;
* `Stage.step` — what a turn of its own does to it;
* `standing_after` — where all filings stand after a schedule;
* `filings_never_overwrite` — whatever the schedule is, nothing that is there changes, and
  every report that was filed is where nothing was before.

Design notes: a command that files several documents one after another is covered by the
schedules that turn to the next document when the one before it is done.
-/
import StyleTokens.Proofs.Disk.Gain
import StyleTokens.Proofs.World.Granting
import StyleTokens.Proofs.World.Pool

namespace StyleTokens

namespace ReportStore

/-- A document that is to be filed under a name. -/
structure Filing where
  name : String
  document : Json

/-- What comes into the file of a report. -/
def Filing.data (filing : Filing) : ByteArray :=
  (filing.document.pretty ++ "\n").toUTF8

/-- The script that files a document. -/
def Filing.script (store : ReportStore) (filing : Filing) : Script (Except Fault Path) :=
  (store.file filing.name filing.document).attempt

/-- Documents that are to be filed in one directory, each by a script of its own. -/
def pool (store : ReportStore) (filings : List Filing) (world : FallibleHost) :
    Pool (Except Fault Path) where
  world := world
  scripts := filings.map (Filing.script store)

variable {store : ReportStore} {filing : Filing} {filings : List Filing} {world : FallibleHost}
  {disk later : Disk} {path : Path} {name : String} {data : ByteArray}
  {left attempt turns n : Nat} {schedule : List Nat}

/-! ### Requests of a filing -/

theorem script_eq (store : ReportStore) (filing : Filing) :
    filing.script store = .ask (.makeDirectories store.directory) fun reply =>
      match reply with
      | .ok _ => (store.fileFrom filing.name filing.data nameLimit 1).attempt
      | .error cause => .done (.error (.io cause)) := by
  refine congrArg (Script.ask _) (funext fun reply => ?_)
  cases reply <;> rfl

theorem attempt_fileFrom_succ :
    (store.fileFrom name data (left + 1) attempt).attempt =
      .ask (.create (store.place name attempt) data) fun reply =>
        match reply with
        | .ok _ => .done (.ok (store.place name attempt))
        | .error cause =>
          if cause = .alreadyExists then (store.fileFrom name data left (attempt + 1)).attempt
          else .done (.error (.io cause)) := by
  refine congrArg (Script.ask _) (funext fun reply => ?_)
  rcases reply with cause | _
  · cases cause <;> rfl
  · rfl

/-! ### Stages of a filing -/

/-- Where a filing stands after a number of turns, with what its script has still to do. -/
inductive Stage (store : ReportStore) (filing : Filing) (disk : Disk) :
    Nat → Script (Except Fault Path) → Prop
  | begins : Stage store filing disk 0 (filing.script store)
  /-- Some names were taken, and there are more to try. -/
  | trying {tried left : Nat} (h : tried + left + 1 = nameLimit) : Stage store filing disk (tried + 1)
      (store.fileFrom filing.name filing.data (left + 1) (tried + 1)).attempt
  | filed {turns attempt : Nat} (first : 1 ≤ attempt) (last : attempt ≤ nameLimit)
    (read : disk.read (store.place filing.name attempt) = .ok filing.data) :
    Stage store filing disk turns (.done (.ok (store.place filing.name attempt)))
  | failed {turns : Nat} (fault : Fault) : Stage store filing disk turns (.done (.error fault))

namespace Stage

variable {script : Script (Except Fault Path)}

/-- What others add makes no difference. -/
theorem gains (h : Stage store filing disk turns script) (hgains : disk.Gains later) :
    Stage store filing later turns script := by
  cases h with
  | begins => exact .begins
  | trying h => exact .trying h
  | filed first last read => exact .filed first last (hgains.read read)
  | failed fault => exact .failed fault

/-- A filing that has ended lets its turns pass. -/
theorem rest {result : Except Fault Path} (h : Stage store filing disk turns (.done result))
    (turns' : Nat) : Stage store filing disk turns' (.done result) := by
  generalize hs : Script.done result = script at h ⊢
  cases h with
  | begins =>
    rw [script_eq] at hs
    cases hs
  | trying h =>
    rw [attempt_fileFrom_succ] at hs
    cases hs
  | filed first last read => exact .filed first last read
  | failed fault => exact .failed fault

/-- A filing that has succeeded has its report on the disk, under one of its names. -/
theorem of_ok (h : Stage store filing disk turns (.done (.ok path))) :
    (∃ attempt, 1 ≤ attempt ∧ attempt ≤ nameLimit ∧ path = store.place filing.name attempt) ∧
      disk.read path = .ok filing.data := by
  generalize hs : Script.done (Except.ok path) = script at h
  cases h with
  | begins =>
    rw [script_eq] at hs
    cases hs
  | trying h =>
    rw [attempt_fileFrom_succ] at hs
    cases hs
  | @filed _ attempt first last read =>
    cases hs
    exact ⟨⟨attempt, first, last, rfl⟩, read⟩
  | failed fault => cases hs

/-- A filing that goes on has had few turns. -/
theorem turns_le {request : Request} {next : request.Reply → Script (Except Fault Path)}
    (h : Stage store filing disk turns (.ask request next)) : turns ≤ nameLimit := by
  generalize hs : Script.ask request next = script at h
  cases h with
  | begins => exact Nat.zero_le _
  | trying h => omega
  | filed _ _ _ => cases hs
  | failed _ => cases hs

/-- **A turn of its own** brings a filing to the next stage.  A report is filed where
nothing was, and in every other case the files stay as they are. -/
theorem step {request : Request} {next : request.Reply → Script (Except Fault Path)}
    (h : Stage store filing world.disk turns (.ask request next)) :
    request.Adds ∧
    Stage store filing (world.reply request).2.disk (turns + 1) (next (world.reply request).1) ∧
    ((∃ path, next (world.reply request).1 = .done (.ok path) ∧ world.disk.Vacant path) ∨
      (∀ path, next (world.reply request).1 ≠ .done (.ok path)) ∧
      ∀ place, (world.reply request).2.disk.file? place = world.disk.file? place) := by
  generalize hs : Script.ask request next = script at h
  cases h with
  | begins =>
    rw [script_eq] at hs
    cases hs
    have hsame : ∀ place, (world.reply (.makeDirectories store.directory)).2.disk.file? place =
        world.disk.file? place := by
      intro place
      rcases world.reply_cases (.makeDirectories store.directory) with ⟨_, _, -, hr⟩ | hr
      · rw [hr]
      · rw [hr]
        exact (world.disk.makeDirectories_spec store.directory).file?_eq place
    refine ⟨trivial, ?_, Or.inr ⟨?_, hsame⟩⟩
    · cases (world.reply (.makeDirectories store.directory)).1 with
      | error cause => exact .failed _
      | ok _ => exact .trying (show 0 + 9999 + 1 = nameLimit from rfl)
    · intro path
      cases (world.reply (.makeDirectories store.directory)).1 with
      | error cause => exact nofun
      | ok _ => exact nofun
  | @trying tried left h =>
    rw [attempt_fileFrom_succ] at hs
    cases hs
    have hok := @FallibleHost.reply_create_ok world (store.place filing.name (tried + 1))
      filing.data
    have herror := @FallibleHost.reply_create_error world (store.place filing.name (tried + 1))
      filing.data
    refine ⟨trivial, ?_⟩
    cases ha : (world.reply (.create (store.place filing.name (tried + 1)) filing.data)).1 with
    | ok _ =>
      have hcreate := hok ha
      exact ⟨.filed (by omega) (by omega) (Disk.create_spec hcreate).2.1,
        Or.inl ⟨_, rfl, Disk.vacant_of_create hcreate⟩⟩
    | error cause =>
      have hsame : ∀ place, _ = world.disk.file? place := fun place =>
        congrArg (Disk.file? · place) (herror ha)
      by_cases hc : cause = .alreadyExists
      · dsimp only
        rw [if_pos hc]
        cases left with
        | zero => exact ⟨.failed _, Or.inr ⟨nofun, hsame⟩⟩
        | succ left =>
          refine ⟨.trying (by omega), Or.inr ⟨?_, hsame⟩⟩
          rw [attempt_fileFrom_succ]
          exact nofun
      · dsimp only
        rw [if_neg hc]
        exact ⟨.failed _, Or.inr ⟨nofun, hsame⟩⟩
  | filed _ _ _ => cases hs
  | failed _ => cases hs

end Stage

/-! ### All filings -/

/-- Where all filings stand after a schedule. -/
structure Standing (store : ReportStore) (filings : List Filing) (schedule : List Nat)
    (pool : Pool (Except Fault Path)) : Prop where
  length : pool.scripts.length = filings.length
  stage : ∀ n filing script, filings[n]? = some filing → pool.scripts[n]? = some script →
    Stage store filing pool.world.disk (schedule.count n) script

namespace Standing

variable {pool : Pool (Except Fault Path)}

theorem start (store : ReportStore) (filings : List Filing) (world : FallibleHost) :
    Standing store filings [] (store.pool filings world) := by
  refine ⟨List.length_map _, fun n filing script hf hs => ?_⟩
  have hmap : (filings.map (Filing.script store))[n]? = some (filing.script store) := by
    rw [List.getElem?_map, hf]
    rfl
  obtain rfl : filing.script store = script := Option.some.inj (hmap.symm.trans hs)
  exact .begins

/-- Every script belongs to a filing. -/
theorem filing_of_script (h : Standing store filings schedule pool)
    {script : Script (Except Fault Path)} (hs : pool.scripts[n]? = some script) :
    ∃ filing, filings[n]? = some filing := by
  obtain ⟨hn, -⟩ := List.getElem?_eq_some_iff.1 hs
  rw [h.length] at hn
  exact ⟨filings[n], List.getElem?_eq_getElem hn⟩

/-- **After one more turn** each filing stands where it stood or at its next stage, and the
disk has gained. -/
theorem turn (h : Standing store filings schedule pool) (n : Nat) :
    Standing store filings (schedule ++ [n]) (pool.turn n) ∧
      pool.world.disk.Gains (pool.turn n).world.disk := by
  have hcount (m : Nat) (hm : m ≠ n) : (schedule ++ [n]).count m = schedule.count m := by
    rw [List.count_append, List.count_singleton, if_neg (by simpa using hm.symm), Nat.add_zero]
  rcases pool.turn_cases n with ⟨hsame, hpasses⟩ | ⟨request, next, hs, hturn⟩
  · rw [hsame]
    refine ⟨⟨h.length, fun m filing script hf hscript => ?_⟩, .refl _⟩
    by_cases hm : m = n
    · subst hm
      cases script with
      | done result => exact (h.stage m filing _ hf hscript).rest _
      | ask request next => exact absurd hscript (hpasses request next)
    · rw [hcount m hm]
      exact h.stage m filing script hf hscript
  · obtain ⟨filing, hf⟩ := h.filing_of_script hs
    obtain ⟨hadds, hstage, -⟩ := (h.stage n filing _ hf hs).step
    have hgains := pool.world.gains_reply hadds
    refine ⟨⟨?_, fun m other script ho hscript => ?_⟩, ?_⟩
    · rw [hturn, List.length_set, h.length]
    · by_cases hm : m = n
      · subst hm
        obtain rfl : filing = other := Option.some.inj (hf.symm.trans ho)
        rw [Pool.scripts_turn_self hs] at hscript
        obtain rfl := Option.some.inj hscript
        rw [hturn, List.count_append, List.count_singleton_self]
        exact hstage
      · rw [Pool.scripts_turn_of_ne hm] at hscript
        rw [hturn, hcount m hm]
        exact (h.stage m other script ho hscript).gains hgains
    · rw [hturn]
      exact hgains

/-- At its turn a filing files its report where nothing was, or the files stay as they are. -/
theorem turn_files (h : Standing store filings schedule pool) (n : Nat) :
    (∃ path, pool.result? n = none ∧ (pool.turn n).result? n = some (.ok path) ∧
      pool.world.disk.Vacant path) ∨
    (∀ path, (pool.turn n).result? n = some (.ok path) → pool.result? n = some (.ok path)) ∧
      ∀ place, (pool.turn n).world.disk.file? place = pool.world.disk.file? place := by
  rcases pool.turn_cases n with ⟨hsame, -⟩ | ⟨request, next, hs, hturn⟩
  · rw [hsame]
    exact Or.inr ⟨fun _ h => h, fun _ => rfl⟩
  · obtain ⟨filing, hf⟩ := h.filing_of_script hs
    have hnext := Pool.scripts_turn_self hs
    obtain ⟨-, -, ⟨path, hdone, hvacant⟩ | ⟨hgoes, hsame⟩⟩ := (h.stage n filing _ hf hs).step
    · refine Or.inl ⟨path, ?_, ?_, hvacant⟩
      · rw [Pool.result?, hs]
      · rw [Pool.result?_eq_some_iff, hnext, hdone]
    · refine Or.inr ⟨fun path hr => ?_, ?_⟩
      · rw [Pool.result?_eq_some_iff, hnext] at hr
        exact absurd (Option.some.inj hr) (hgoes path)
      · rw [hturn]
        exact hsame

/-- A filing that has succeeded after a turn had done so before, or its path was free. -/
theorem turn_ok {m : Nat} (h : Standing store filings schedule pool)
    (hr : (pool.turn m).result? n = some (.ok path)) :
    pool.result? n = some (.ok path) ∨ n = m ∧ pool.world.disk.Vacant path := by
  by_cases hm : n = m
  · subst hm
    rcases h.turn_files n with ⟨other, -, hother, hvacant⟩ | ⟨hsame, -⟩
    · obtain rfl : other = path := by simpa [hother] using hr
      exact Or.inr ⟨rfl, hvacant⟩
    · exact Or.inl (hsame path hr)
  · rw [Pool.result?_turn_of_ne hm] at hr
    exact Or.inl hr

theorem filed (h : Standing store filings schedule pool) (hf : filings[n]? = some filing)
    (hr : pool.result? n = some (.ok path)) :
    (∃ attempt, 1 ≤ attempt ∧ attempt ≤ nameLimit ∧ path = store.place filing.name attempt) ∧
      pool.world.disk.read path = .ok filing.data := by
  rw [Pool.result?_eq_some_iff] at hr
  exact (h.stage n filing _ hf hr).of_ok

end Standing

/-- At the start no filing has ended. -/
theorem result?_pool (store : ReportStore) (filings : List Filing) (world : FallibleHost)
    (n : Nat) : (store.pool filings world).result? n = none := by
  rw [Pool.result?, pool]
  dsimp only
  rw [List.getElem?_map]
  cases filings[n]? with
  | none => rfl
  | some filing =>
    rw [Option.map_some, script_eq]

/-- The world and the filings after a schedule. -/
def after (store : ReportStore) (filings : List Filing) (world : FallibleHost)
    (schedule : List Nat) : Pool (Except Fault Path) :=
  (store.pool filings world).interleave schedule

theorem after_append (first second : List Nat) : store.after filings world (first ++ second) =
    (store.after filings world first).interleave second :=
  Pool.interleave_append _ _ _

theorem after_concat (schedule : List Nat) (n : Nat) :
    store.after filings world (schedule ++ [n]) = (store.after filings world schedule).turn n :=
  after_append schedule [n]

/-- **Where all filings stand after a schedule.** -/
theorem standing_after (store : ReportStore) (filings : List Filing) (world : FallibleHost)
    (schedule : List Nat) : Standing store filings schedule (store.after filings world schedule) :=
  Pool.interleave_inv (Standing store filings) (.start store filings world)
    (fun _ n h => (h.turn n).1) schedule

/-- From every moment on the disk only gains. -/
theorem gains_after (earlier rest : List Nat) :
    (store.after filings world earlier).world.disk.Gains
      (store.after filings world (earlier ++ rest)).world.disk := by
  induction rest using List.reverseRecOn with
  | nil =>
    rw [List.append_nil]
    exact .refl _
  | append_singleton before n ih =>
    rw [← List.append_assoc, after_concat]
    exact ih.trans ((standing_after store filings world _).turn n).2

theorem result?_after {result : Except Fault Path} {earlier : List Nat}
    (h : (store.after filings world earlier).result? n = some result) (rest : List Nat) :
    (store.after filings world (earlier ++ rest)).result? n = some result := by
  rw [after_append]
  exact Pool.result?_interleave h rest

/-- A filing that has not ended is not at its last turn. -/
theorem count_le_of_result?_eq_none (hf : filings[n]? = some filing)
    (h : (store.after filings world schedule).result? n = none) :
    schedule.count n ≤ nameLimit := by
  have hstanding := standing_after store filings world schedule
  cases hs : (store.after filings world schedule).scripts[n]? with
  | none =>
    -- there is a script for each filing
    obtain ⟨hn, -⟩ := List.getElem?_eq_some_iff.1 hf
    rw [List.getElem?_eq_none_iff, hstanding.length] at hs
    omega
  | some script =>
    cases script with
    | done result =>
      rw [Pool.result?_eq_some_iff.2 hs] at h
      cases h
    | ask request next => exact (hstanding.stage n filing _ hf hs).turns_le

/-- **A report is filed where nothing was** at any moment before. -/
theorem not_occupied_before {earlier : List Nat} (rest : List Nat)
    (hbefore : (store.after filings world earlier).result? n = none)
    (h : (store.after filings world (earlier ++ rest)).result? n = some (.ok path)) :
    ¬ (store.after filings world earlier).world.disk.Occupied path := by
  -- back to the turn at which the filing has ended
  induction rest using List.reverseRecOn with
  | nil =>
    rw [List.append_nil, hbefore] at h
    cases h
  | append_singleton before m ih =>
    rw [← List.append_assoc, after_concat] at h
    rcases (standing_after store filings world (earlier ++ before)).turn_ok h with
      h | ⟨-, hvacant⟩
    · exact ih h
    · exact fun ho => ((gains_after earlier before).occupied ho).not_vacant hvacant

/-- **Two reports are never at one place.** -/
theorem apart_after {m : Nat} {other : Path} (hne : m ≠ n)
    (hn : (store.after filings world schedule).result? n = some (.ok path))
    (hm : (store.after filings world schedule).result? m = some (.ok other)) :
    (store.after filings world schedule).world.disk.Apart other path := by
  -- the turn at which the second of the two has ended decides
  induction schedule using List.reverseRecOn with
  | nil =>
    have hnone := result?_pool store filings world n
    rw [show (store.pool filings world).result? n = some (.ok path) from hn] at hnone
    cases hnone
  | append_singleton before k ih =>
    have hstanding := standing_after store filings world before
    have hgains := (hstanding.turn k).2
    rw [after_concat] at hn hm ⊢
    refine Disk.Apart.congr ?_ hgains.destination_eq
    rcases hstanding.turn_ok hn with hn' | ⟨rfl, hvacant⟩
    · rcases hstanding.turn_ok hm with hm' | ⟨rfl, hvacant⟩
      · exact ih hn' hm'
      · obtain ⟨filing, hf⟩ := hstanding.filing_of_script (Pool.result?_eq_some_iff.1 hn')
        exact (hvacant.apart (hstanding.filed hf hn').2).symm
    · rw [Pool.result?_turn_of_ne hne] at hm
      obtain ⟨filing, hf⟩ := hstanding.filing_of_script (Pool.result?_eq_some_iff.1 hm)
      exact hvacant.apart (hstanding.filed hf hm).2

/-- A filing that fails changes no file at any of its turns. -/
theorem file?_of_failed {fault : Fault} {earlier rest : List Nat}
    (h : (store.after filings world (earlier ++ [n] ++ rest)).result? n = some (.error fault))
    (place : Place) :
    (store.after filings world (earlier ++ [n])).world.disk.file? place =
      (store.after filings world earlier).world.disk.file? place := by
  rw [after_concat]
  rcases (standing_after store filings world earlier).turn_files n with
    ⟨path, -, hr, -⟩ | ⟨-, hsame⟩
  · -- a report that is filed stays filed
    rw [← after_concat] at hr
    rw [result?_after hr rest] at h
    cases h
  · exact hsame place

/-! ### A filing that is alone -/

/-- The path of a document: the first of its names that is free. -/
def FirstFree (store : ReportStore) (disk : Disk) (name : String) (path : Path) : Prop :=
  ∃ attempt, 1 ≤ attempt ∧ attempt ≤ nameLimit ∧ path = store.place name attempt ∧
    disk.Vacant path ∧
    ∀ before, 1 ≤ before → before < attempt → disk.Occupied (store.place name before)

/-- The path of a name in a directory ends with the name. -/
theorem exists_text_child (base : Path) (name : String) :
    ∃ front, (base.child name).text = front ++ name := by
  rw [Path.child, Path.join]
  split
  · exact ⟨"", String.empty_append.symm⟩
  · split
    · exact ⟨base.text, rfl⟩
    · exact ⟨base.text ++ "/", rfl⟩

/-- A path of a report has no slash at its end. -/
theorem withoutSlashes_place (store : ReportStore) (name : String) (attempt : Nat) :
    Disk.withoutSlashes (store.place name attempt) = store.place name attempt := by
  obtain ⟨front, htext⟩ : ∃ front, (store.place name attempt).text = front ++ ".json" := by
    obtain ⟨front, h⟩ := exists_text_child store.directory
      (stem name ++ (if attempt = 1 then "" else "-" ++ toString attempt) ++ ".json")
    refine ⟨front ++ (stem name ++ (if attempt = 1 then "" else "-" ++ toString attempt)), ?_⟩
    rw [String.append_assoc]
    exact h
  have hreverse : (store.place name attempt).text.toList.reverse.dropWhile (· == '/') =
      (store.place name attempt).text.toList.reverse := by
    rw [htext, String.toList_append, List.reverse_append]
    rfl
  rw [Disk.withoutSlashes, hreverse, List.reverse_reverse, String.ofList_toList]
  exact ite_self _

end ReportStore

/-- A world that does not say that something is there where nothing is. -/
def FallibleHost.Candid (world : FallibleHost) : Prop :=
  ∀ n request, world.refusal n request ≠ some .alreadyExists

namespace FallibleHost

variable {world : FallibleHost} {path : Path} {data : ByteArray}

theorem Candid.reply (h : world.Candid) (request : Request) : (world.reply request).2.Candid := by
  intro n other
  rw [refusal_reply]
  exact h n other

/-- What a candid world says to be there is there. -/
theorem Candid.reply_create (h : world.Candid)
    (hr : (world.reply (.create path data)).1 = .error .alreadyExists) :
    world.disk.create path data = .error .alreadyExists := by
  rw [FallibleHost.reply] at hr
  cases hrefused : world.refusal world.asked (.create path data) with
  | some cause =>
    rw [hrefused] at hr
    obtain rfl : cause = .alreadyExists := Except.error.inj hr
    exact absurd hrefused (h _ _)
  | none =>
    rw [hrefused] at hr
    have hchange : (world.host.change (world.host.disk.create path data)).1 =
        .error .alreadyExists := hr
    cases hc : world.host.disk.create path data with
    | error cause =>
      rw [hc] at hchange
      exact congrArg Except.error (Except.error.inj hchange)
    | ok later =>
      rw [hc] at hchange
      cases hchange

end FallibleHost

namespace ReportStore

variable {store : ReportStore} {filing : Filing} {world : FallibleHost} {disk : Disk} {path : Path}
  {name : String} {data : ByteArray} {left attempt : Nat}

/-- The path of a report that was filed alone is the first that was free. -/
theorem first_of_run_fileFrom (h : world.Candid)
    (hr : (world.run (store.fileFrom name data left attempt).attempt).1 = .ok path) :
    ∃ last, attempt ≤ last ∧ last < attempt + left ∧ path = store.place name last ∧
      world.disk.Vacant path ∧
      ∀ before, attempt ≤ before → before < last → world.disk.Occupied (store.place name before) := by
  induction left generalizing attempt world with
  | zero => cases hr
  | succ left ih =>
    rw [attempt_fileFrom_succ, FallibleHost.run] at hr
    cases ha : (world.reply (.create (store.place name attempt) data)).1 with
    | ok _ =>
      rw [ha] at hr
      obtain rfl : store.place name attempt = path := Except.ok.inj hr
      exact ⟨attempt, Nat.le_refl _, by omega, rfl,
        Disk.vacant_of_create (FallibleHost.reply_create_ok ha), fun _ _ _ => by omega⟩
    | error cause =>
      rw [ha] at hr
      by_cases hc : cause = .alreadyExists
      · subst hc
        have htaken := (Disk.create_eq_alreadyExists_iff (store.withoutSlashes_place name attempt)).1
          (h.reply_create ha)
        have hsame := FallibleHost.reply_create_error ha
        dsimp only at hr
        rw [if_pos rfl] at hr
        obtain ⟨last, hle, hlt, hpath, hvacant, hbefore⟩ := ih (h.reply _) hr
        rw [hsame] at hvacant hbefore
        refine ⟨last, by omega, by omega, hpath, hvacant, fun before hfirst hlast => ?_⟩
        by_cases hb : before = attempt
        · exact hb ▸ htaken
        · exact hbefore before (by omega) hlast
      · dsimp only at hr
        rw [if_neg hc] at hr
        cases hr

/-- A name that is taken is passed over. -/
theorem run_fileFrom_of_taken (data : ByteArray) (left : Nat) (h : world.Grants)
    (ho : world.disk.Occupied (store.place name attempt)) :
    ∃ next : FallibleHost, next.Grants ∧ next.disk = world.disk ∧
      world.run (store.fileFrom name data (left + 1) attempt).attempt =
        next.run (store.fileFrom name data left (attempt + 1)).attempt := by
  have hcreate : world.host.disk.create (store.place name attempt) data = .error .alreadyExists :=
    (Disk.create_eq_alreadyExists_iff (store.withoutSlashes_place name attempt)).2 ho
  obtain ⟨hreply, -⟩ := h.reply_eq (.create (store.place name attempt) data)
  have ha : (world.reply (.create (store.place name attempt) data)).1 = .error .alreadyExists := by
    rw [hreply]
    show (world.host.change (world.host.disk.create _ _)).1 = _
    rw [hcreate]
    rfl
  refine ⟨(world.reply (.create (store.place name attempt) data)).2,
    h.run (.request (.create (store.place name attempt) data)),
    FallibleHost.reply_create_error ha, ?_⟩
  rw [attempt_fileFrom_succ, FallibleHost.run, ha]
  rfl

/-- A name that is free is taken. -/
theorem run_fileFrom_of_free (h : world.Grants)
    (hv : world.disk.Vacant (store.place name attempt)) :
    (world.run (store.fileFrom name data (left + 1) attempt).attempt).1 =
      .ok (store.place name attempt) := by
  obtain ⟨later, hcreate⟩ :=
    Disk.create_of_vacant (store.withoutSlashes_place name attempt) hv data
  obtain ⟨hreply, -⟩ := h.reply_eq (.create (store.place name attempt) data)
  have ha : (world.reply (.create (store.place name attempt) data)).1 = .ok () := by
    rw [hreply]
    show (world.host.change (world.host.disk.create _ _)).1 = _
    rw [hcreate]
    rfl
  rw [attempt_fileFrom_succ, FallibleHost.run, ha]
  rfl

/-- The first free name is found. -/
theorem run_fileFrom_of_first {last : Nat} (h : world.Grants) (hle : attempt ≤ last)
    (hlt : last < attempt + left) (hv : world.disk.Vacant (store.place name last))
    (ho : ∀ before, attempt ≤ before → before < last →
      world.disk.Occupied (store.place name before)) :
    (world.run (store.fileFrom name data left attempt).attempt).1 =
      .ok (store.place name last) := by
  induction left generalizing attempt world with
  | zero => omega
  | succ left ih =>
    by_cases hlast : attempt = last
    · subst hlast
      exact run_fileFrom_of_free h hv
    · obtain ⟨next, hgrants, hsame, hrun⟩ :=
        run_fileFrom_of_taken data left h (ho attempt (Nat.le_refl _) (by omega))
      rw [hrun]
      refine ih hgrants (by omega) (by omega) ?_ fun before hb hl => ?_
      · rwa [hsame]
      · rw [hsame]
        exact ho before (by omega) hl

/-- Where all names are taken none is found. -/
theorem run_fileFrom_of_occupied (h : world.Grants)
    (ho : ∀ before, attempt ≤ before → before < attempt + left →
      world.disk.Occupied (store.place name before)) :
    (world.run (store.fileFrom name data left attempt).attempt).1 =
      .error (.invalidArgument (.noFreeName name store.directory.text)) := by
  induction left generalizing attempt world with
  | zero => rfl
  | succ left ih =>
    obtain ⟨next, hgrants, hsame, hrun⟩ :=
      run_fileFrom_of_taken data left h (ho attempt (Nat.le_refl _) (by omega))
    rw [hrun]
    refine ih hgrants fun before hb hl => ?_
    rw [hsame]
    exact ho before (by omega) (by omega)

/-- **A filing that is alone** comes to the first of its names that is free. -/
structure FilesFirst (store : ReportStore) (filing : Filing) (world : FallibleHost) : Prop where
  /-- When it succeeds, it has done so. -/
  first : world.Candid → ∀ path, (world.run (filing.script store)).1 = .ok path →
    store.FirstFree (world.reply (.makeDirectories store.directory)).2.disk filing.name path
  /-- When it is refused nothing, it succeeds. -/
  succeeds : world.Grants → (world.reply (.makeDirectories store.directory)).1 = .ok () →
    ∀ path, store.FirstFree (world.reply (.makeDirectories store.directory)).2.disk
      filing.name path → (world.run (filing.script store)).1 = .ok path
  /-- When all names are taken, it says so. -/
  full : world.Grants → (world.reply (.makeDirectories store.directory)).1 = .ok () →
    (∀ attempt, 1 ≤ attempt → attempt ≤ nameLimit →
      (world.reply (.makeDirectories store.directory)).2.disk.Occupied
        (store.place filing.name attempt)) →
    (world.run (filing.script store)).1 =
      .error (.invalidArgument (.noFreeName filing.name store.directory.text))

theorem files_first (store : ReportStore) (filing : Filing) (world : FallibleHost) :
    store.FilesFirst filing world := by
  have hrun (ha : (world.reply (.makeDirectories store.directory)).1 = .ok ()) :
      world.run (filing.script store) = (world.reply (.makeDirectories store.directory)).2.run
        (store.fileFrom filing.name filing.data nameLimit 1).attempt := by
    rw [script_eq, FallibleHost.run, ha]
  refine ⟨fun hcandid path hr => ?_, fun hgrants ha path hfirst => ?_, fun hgrants ha ho => ?_⟩
  · cases ha : (world.reply (.makeDirectories store.directory)).1 with
    | error cause =>
      rw [script_eq, FallibleHost.run, ha] at hr
      cases hr
    | ok _ =>
      rw [hrun ha] at hr
      obtain ⟨last, hle, hlt, hpath, hvacant, hbefore⟩ :=
        first_of_run_fileFrom (hcandid.reply _) hr
      exact ⟨last, hle, by omega, hpath, hvacant, hbefore⟩
  · obtain ⟨last, hle, hlt, rfl, hvacant, hbefore⟩ := hfirst
    rw [hrun ha]
    exact run_fileFrom_of_first (hgrants.run (.request (.makeDirectories _))) hle (by omega)
      hvacant hbefore
  · rw [hrun ha]
    exact run_fileFrom_of_occupied (hgrants.run (.request (.makeDirectories _)))
      fun before hb hl => ho before hb (by omega)

/-! ### Any schedule -/

/-- **Reports are never overwritten**, whatever is on the disk at the start, whatever is
refused, and in whatever order the filings take turns.

* What is on the disk at some moment stays as it is.
* A filing that succeeds has put its document to one of its names, where nothing was at any
  moment before, and no two filings have put theirs to one place.
* A filing that fails has changed no file.  One that finds all names taken does not succeed,
  and all have ended after one turn more than there are names.
* A filing that is alone comes to the first of its names that is free. -/
theorem filings_never_overwrite (store : ReportStore) (filings : List Filing)
    (world : FallibleHost) (schedule : List Nat) :
    let final := store.after filings world schedule
    (∀ earlier, earlier <+: schedule → ∀ place entry,
      (store.after filings world earlier).world.disk.entry? place = some entry →
      final.world.disk.entry? place = some entry) ∧
    (∀ n filing path, filings[n]? = some filing → final.result? n = some (.ok path) →
      (∃ attempt, 1 ≤ attempt ∧ attempt ≤ nameLimit ∧ path = store.place filing.name attempt) ∧
      final.world.disk.read path = .ok filing.data ∧
      (∀ earlier, earlier <+: schedule → (store.after filings world earlier).result? n = none →
        ¬ (store.after filings world earlier).world.disk.Occupied path) ∧
      ∀ m other, m ≠ n → final.result? m = some (.ok other) →
        other ≠ path ∧ final.world.disk.Apart other path) ∧
    (∀ n filing, filings[n]? = some filing →
      (∀ fault, final.result? n = some (.error fault) → ∀ earlier, earlier ++ [n] <+: schedule →
        ∀ place, (store.after filings world (earlier ++ [n])).world.disk.file? place =
          (store.after filings world earlier).world.disk.file? place) ∧
      (∀ earlier, earlier <+: schedule → (store.after filings world earlier).result? n = none →
        (∀ attempt, 1 ≤ attempt → attempt ≤ nameLimit →
          (store.after filings world earlier).world.disk.Occupied
            (store.place filing.name attempt)) →
        ∀ path, final.result? n ≠ some (.ok path)) ∧
      (nameLimit < schedule.count n → final.result? n ≠ none)) ∧
    ∀ filing, store.FilesFirst filing world := by
  intro final
  have hstanding := standing_after store filings world schedule
  refine ⟨?stays, ?succeeds, ?fails, fun filing => files_first store filing world⟩
  case stays =>
    rintro earlier ⟨rest, rfl⟩
    exact (gains_after earlier rest).stays
  case succeeds =>
    intro n filing path hf hr
    obtain ⟨hname, hread⟩ := hstanding.filed hf hr
    refine ⟨hname, hread, ?_, fun m other hne hm => ?_⟩
    · rintro earlier ⟨rest, rfl⟩ hbefore
      exact not_occupied_before rest hbefore hr
    · have hapart := apart_after hne hr hm
      refine ⟨?_, hapart⟩
      -- a path that gives something to read leads somewhere
      rintro rfl
      obtain ⟨place, entry, hfind, hentry⟩ := Disk.read_eq_ok_iff.1 hread
      have hdest := Disk.destination_of_find hfind (by rcases hentry with rfl | ⟨-, _, rfl⟩ <;> simp)
      exact hapart _ hdest hdest
  case fails =>
    intro n filing hf
    refine ⟨?_, ?_, fun hcount hnone => ?_⟩
    · rintro fault hr earlier ⟨rest, rfl⟩ place
      exact file?_of_failed hr place
    · rintro earlier ⟨rest, rfl⟩ hbefore htaken path hr
      obtain ⟨⟨attempt, hfirst, hlast, rfl⟩, -⟩ := hstanding.filed hf hr
      exact not_occupied_before rest hbefore hr (htaken attempt hfirst hlast)
    · have := count_le_of_result?_eq_none hf hnone
      omega

end ReportStore

namespace Sample

/-- A directory with a report, next to which others are to be filed. -/
def reports : ReportStore := ⟨⟨"/p"⟩⟩

/-- Two documents with the name of the report that is there, and one with the name that is
tried next. -/
def filings : List ReportStore.Filing :=
  [⟨"r.json", .bool true⟩, ⟨"r.json", .bool false⟩, ⟨"r-2", .null⟩]

def shelf : FallibleHost where
  host := {
    disk := {
      entries := [(["p"], .directory), (["p", "r.json"], .file "{}".toUTF8)]
      here := [] } }

/-- The third document takes the name away for which the first two are heading. -/
def turns : List Nat := [0, 1, 2, 0, 1, 2, 1, 0, 0, 1, 1]

theorem results_of_turns :
    (reports.after filings shelf turns).result? 0 = some (.ok ⟨"/p/r-3.json"⟩) ∧
      (reports.after filings shelf turns).result? 1 = some (.ok ⟨"/p/r-4.json"⟩) ∧
      (reports.after filings shelf turns).result? 2 = some (.ok ⟨"/p/r-2.json"⟩) := by
  decide +kernel

/-- All three documents are filed, each in a file of its own, and the report that was there
is still there. -/
theorem filed_side_by_side :
    let final := reports.after filings shelf turns
    final.world.disk.read ⟨"/p/r-3.json"⟩ = .ok (ReportStore.Filing.data ⟨"r.json", .bool true⟩) ∧
      final.world.disk.read ⟨"/p/r-4.json"⟩ =
        .ok (ReportStore.Filing.data ⟨"r.json", .bool false⟩) ∧
      final.world.disk.read ⟨"/p/r-2.json"⟩ = .ok (ReportStore.Filing.data ⟨"r-2", .null⟩) ∧
      final.world.disk.entry? ["p", "r.json"] = some (.file "{}".toUTF8) := by
  intro final
  obtain ⟨stays, succeeds, -⟩ := ReportStore.filings_never_overwrite reports filings shelf turns
  obtain ⟨h0, h1, h2⟩ := results_of_turns
  exact ⟨(succeeds 0 _ _ rfl h0).2.1, (succeeds 1 _ _ rfl h1).2.1, (succeeds 2 _ _ rfl h2).2.1,
    stays [] List.nil_prefix _ _ rfl⟩

end Sample

end StyleTokens

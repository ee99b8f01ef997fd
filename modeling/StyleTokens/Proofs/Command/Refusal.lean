/-
What can be refused before a file is touched.

A run is planned before it is carried out.  Whatever is wrong with the request, the
configuration or the project shows while it is planned; all such failures have one
exit code, and planning asks for nothing that touches a file.

* `detect_obeys`, `line_obeys`, `tell_obeys` and the like — what a command tells touches
  nothing: it looks at its environment and writes to its two streams;
* `Fault.IsRefusal` — the failures of a plan;
* `Outcome.bind`, `Outcome.mapM` — rules for results in parts;
* `checked_refuses`, `gate?_refuses` and the like — what the parts of a plan fail with;
* `plan_obeys` — what a plan asks and how it fails;
* `run_plan` — what it leaves behind: directories on the way to the reports.
-/
import StyleTokens.Command.Perform
import StyleTokens.Proofs.Batch.Results
import StyleTokens.Proofs.World.Conduct
import StyleTokens.Proofs.World.Frame

namespace StyleTokens

/-! ### What a command tells -/

theorem Console.line_obeys (console : Console) (stream : Stream) (text : String) :
    (console.line stream text).Obeys Request.Reads fun _ => True := by
  unfold line
  split
  · exact .pure trivial
  · exact .request (.say stream _) trivial

theorem Console.anySet_obeys (names : List String) :
    (anySet names).Obeys Request.Reads fun _ => True := by
  induction names with
  | nil => exact .pure trivial
  | cons name names ih =>
    refine .ask trivial fun value => ?_
    split
    · exact .pure trivial
    · exact ih

theorem Console.detect_obeys : detect.Obeys Request.Reads fun _ => True :=
  .ask trivial fun _ => .ask trivial fun _ => .bind (anySet_obeys _) fun _ _ => .pure trivial

theorem Console.summary_obeys (console : Console) (members : List (String × Json)) :
    (console.summary members).Obeys Request.Reads fun _ => True := by
  unfold summary
  split
  · exact .request (.say .out _) trivial
  · exact .pure trivial

theorem Console.failure_obeys (console : Console) (fault : Fault) :
    (console.failure fault).Obeys Request.Reads fun _ => True := by
  unfold failure
  split <;> exact .request (.say .err _) trivial

theorem tellErrors_obeys (console : Console) (records : List FileRecord) :
    (tellErrors console records).Obeys Request.Reads fun _ => True := by
  induction records with
  | nil => exact .pure trivial
  | cons record records ih =>
    unfold tellErrors
    dsimp only
    split
    · exact .bind (Console.line_obeys _ _ _) fun _ _ => ih
    · exact ih

theorem BatchReport.tell_obeys (report : BatchReport) (console : Console) (path : Option Path) :
    (report.tell console path).Obeys Request.Reads fun _ => True := by
  unfold tell
  refine .bind (Console.line_obeys _ _ _) fun _ _ => ?_
  refine .bind (Console.line_obeys _ _ _) fun _ _ => ?_
  refine .bind (Console.line_obeys _ _ _) fun _ _ => ?_
  refine .bind (tellErrors_obeys _ _) fun _ _ => ?_
  dsimp only
  -- whatever the report says, more lines follow
  repeat' first
    | exact .pure trivial
    | exact Console.line_obeys _ _ _
    | refine .bind (Console.line_obeys _ _ _) fun _ _ => ?_
    | split

/-! ### Refusals -/

/-- A failure that has the exit code of requests that cannot be carried out. -/
def Fault.IsRefusal (fault : Fault) : Prop :=
  fault.exitCode = 2

/-! ### Results in parts -/

namespace Outcome

variable {α β : Type} {ends : β → Prop} {fails : Fault → Prop}

theorem throw {fault : Fault} (h : fails fault) :
    Outcome ends fails (MonadExcept.throw fault : Except Fault β) :=
  h

theorem bind {result : Except Fault α} {next : α → Except Fault β}
    (h : Outcome (fun _ => True) fails result) (hnext : ∀ value, Outcome ends fails (next value)) :
    Outcome ends fails (result >>= next) := by
  cases result with
  | error fault => exact h
  | ok value => exact hnext value

theorem mapM {f : α → Except Fault β} (h : ∀ value, Outcome (fun _ => True) fails (f value))
    (values : List α) : Outcome (fun _ => True) fails (values.mapM f) := by
  induction values with
  | nil => exact trivial
  | cons value values ih =>
    rw [List.mapM_cons]
    exact bind (h value) fun _ => bind ih fun _ => trivial

theorem foldlM {f : β → α → Except Fault β}
    (h : ∀ start value, Outcome (fun _ => True) fails (f start value)) (start : β)
    (values : List α) : Outcome (fun _ => True) fails (values.foldlM f start) := by
  induction values generalizing start with
  | nil => exact trivial
  | cons value values ih =>
    rw [List.foldlM_cons]
    exact bind (h start value) ih

end Outcome

/-! ### The parts of a plan -/

theorem TokenTable.ofEntries_refuses (entries : List TokenEntry) :
    Outcome (fun _ => True) Fault.IsRefusal (ofEntries entries) := by
  refine .foldlM (fun table entry => ?_) _ _
  unfold insert?
  split
  · exact .throw rfl
  · split
    · exact .throw rfl
    · exact trivial

theorem Rule.ofDraft_refuses (draft : RuleDraft) :
    Outcome (fun _ => True) Fault.IsRefusal (ofDraft draft) := by
  unfold ofDraft
  dsimp only
  split
  · exact .throw rfl
  · split
    · exact .throw rfl
    · split
      · exact .throw rfl
      · split
        · exact .throw rfl
        · exact trivial

theorem RuleSet.ofDrafts_refuses (name : String) (drafts : List RuleDraft) (table : TokenTable) :
    Outcome (fun _ => True) Fault.IsRefusal (ofDrafts name drafts table) := by
  refine .bind (.mapM Rule.ofDraft_refuses drafts) fun rules => ?_
  unfold ofRules
  split
  · exact .throw rfl
  · split
    · exact .throw rfl
    · exact trivial

theorem Configuration.parse_refuses (text : String) :
    Outcome (fun _ => True) Fault.IsRefusal (parse text) := by
  unfold parse
  cases Json.read text >>= ofJson with
  | error detail => exact .throw rfl
  | ok configuration => exact trivial

theorem Configuration.checked_refuses (configuration : Configuration) :
    Outcome (fun _ => True) Fault.IsRefusal configuration.checked := by
  unfold checked
  dsimp only
  split
  · exact .throw rfl
  · split
    · exact .throw rfl
    · split
      · exact .throw rfl
      · refine .bind (TokenTable.ofEntries_refuses _) fun table => ?_
        exact .bind (.mapM (fun _ => RuleSet.ofDrafts_refuses _ _ _) _) fun _ => trivial

theorem Setup.ruleSet_refuses (setup : Setup) (name : String) :
    Outcome (fun _ => True) Fault.IsRefusal (setup.ruleSet name) := by
  unfold ruleSet
  split
  · exact trivial
  · exact .throw rfl

theorem Duration.parse_refuses (text : String) :
    Outcome (fun _ => True) Fault.IsRefusal (parse text) := by
  unfold parse
  dsimp only
  split
  · exact trivial
  · exact .throw rfl

theorem RunOptions.gate?_refuses (options : RunOptions) (setup : Setup) (root outDir : Path) :
    Outcome (fun _ => True) Fault.IsRefusal (options.gate? setup root outDir) := by
  unfold gate?
  split
  · exact trivial
  · split
    · exact trivial
    · split
      · exact trivial
      · dsimp only
        split
        · refine .bind (Duration.parse_refuses _) fun limit => ?_
          split
          · exact .throw rfl
          · exact trivial
        · refine .bind trivial fun limit => ?_
          split
          · exact .throw rfl
          · exact trivial

theorem Glob.parse_refuses (text : String) :
    Outcome (fun _ => True) Fault.IsRefusal (parse text) := by
  unfold parse
  split
  · split
    · exact trivial
    · exact .throw rfl
  · exact .throw rfl

theorem Catalog.entryPath_refuses (catalog : Catalog) (entry : String) :
    Outcome (fun _ => True) Fault.IsRefusal (catalog.entryPath entry) := by
  unfold entryPath
  dsimp only
  split
  · exact .throw rfl
  · exact trivial

/-! ### What a plan asks -/

/-- A refusal on the way ends an action. -/
theorem Action.obeys_refuse {α β : Type} {may : Request → Prop} {ends : β → Prop}
    {fails : Fault → Prop} {fault : Fault} {next : α → Action β} (h : fails fault) :
    Action.Obeys may ends fails ((throw fault : Action α) >>= next) := by
  have hthrow : Action.Obeys may (fun _ : α => False) fails (throw fault) := .throw h
  exact .bind hthrow fun _ hnone => hnone.elim

theorem Action.ensurePresent_fails {path : Path} {fails : Fault → Prop}
    (h : fails (.missingPath path.text)) :
    (ensurePresent path).Obeys Request.Reads (fun _ => True) fails := by
  refine .bind (.lift (.request (.present path) trivial)) fun there _ => ?_
  split
  · exact .throw h
  · exact .pure trivial

theorem Action.ensurePresent_obeys (path : Path) :
    (ensurePresent path).Obeys Request.Reads (fun _ => True) Fault.IsRefusal :=
  ensurePresent_fails rfl

/-- A script of the file system fails with a refusal. -/
theorem Action.ofIo_obeys {α : Type} {may : Request → Prop} {script : Script (Except IoCause α)}
    (h : script.Obeys may fun _ => True) :
    (ofIo script).Obeys may (fun _ => True) Fault.IsRefusal :=
  .ofIo_fails (fun _ => rfl) h

theorem Setup.load_obeys (path : Option Path) :
    (load path).Obeys Request.Reads (fun _ => True) Fault.IsRefusal := by
  have hchecked (configuration : Configuration) : Action.Obeys Request.Reads (fun _ => True)
      Fault.IsRefusal (liftM configuration.checked : Action Setup) :=
    .ofExcept configuration.checked_refuses
  unfold load
  cases path with
  | none => exact hchecked _
  | some path =>
    refine .bind (Action.ensurePresent_obeys path) fun _ _ => ?_
    refine .bind (Action.ofIo_obeys (Script.readText_obeys trivial)) fun text _ => ?_
    exact .bind (.ofExcept (Configuration.parse_refuses text)) fun configuration _ =>
      hchecked configuration

theorem ProjectOptions.resolveRoot_fails {options : ProjectOptions} {fails : Fault → Prop}
    (hmissing : fails (.missingPath options.root.text)) (hio : ∀ cause, fails (.io cause)) :
    options.resolveRoot.Obeys Request.Reads (fun _ => True) fails :=
  .bind (Action.ensurePresent_fails hmissing) fun _ _ =>
    .ofIo_fails hio (.request (.canonical _) trivial)

theorem ProjectOptions.resolveRoot_obeys (options : ProjectOptions) :
    options.resolveRoot.Obeys Request.Reads (fun _ => True) Fault.IsRefusal :=
  resolveRoot_fails rfl fun _ => rfl

theorem Catalog.list_obeys (catalog : Catalog) (source : Source) :
    (catalog.list source).Obeys Request.Reads (fun _ => True) Fault.IsRefusal := by
  cases source with
  | report path =>
    refine .bind (Action.ensurePresent_obeys _) fun _ _ => ?_
    refine .bind (Action.ofIo_obeys (Script.readText_obeys trivial)) fun text _ => ?_
    split
    · exact .throw rfl
    · split
      · exact .throw rfl
      · split
        · exact .throw rfl
        · exact .bind (.ofExcept (.mapM catalog.entryPath_refuses _)) fun _ _ => .pure trivial
  | glob text =>
    refine .bind (Action.ensurePresent_obeys _) fun _ _ => ?_
    refine .bind (.ofExcept (Glob.parse_refuses text)) fun glob _ => ?_
    refine .bind (.lift (.request (.files catalog.root) trivial)) fun found _ => ?_
    cases found with
    | error cause => exact .throw rfl
    | ok found => exact .pure trivial

/-- What preparing the directory of the reports asks. -/
theorem prepareOutDir_obeys (directory : Path) :
    (prepareOutDir directory).Obeys
      (fun request => request.Reads ∨ request = .makeDirectories directory) (fun _ => True)
      Fault.IsRefusal := by
  have hmake : (Action.makeDirectories directory).Obeys
      (fun request => request.Reads ∨ request = .makeDirectories directory) (fun _ => True)
      Fault.IsRefusal :=
    Action.ofIo_obeys (.request (.makeDirectories directory) (Or.inr rfl))
  unfold prepareOutDir
  refine .bind (.lift (.request (.present directory) (Or.inl trivial))) fun there _ => ?_
  dsimp only
  split
  · refine .bind (.lift (.request (.isDirectory directory) (Or.inl trivial))) fun isDirectory _ => ?_
    split
    · exact Action.obeys_refuse rfl
    · exact hmake
  · exact hmake

/-! ### What a plan leaves behind -/

variable {world : FallibleHost} {disk : Disk} {places : Place → Prop}

/-- Making directories for a path makes those on the way to it. -/
theorem Script.Obeys.furnished {α : Type} {ends : α → Prop} {script : Script α} {path : Path}
    (h : script.Obeys (fun request => request.Reads ∨ request = .makeDirectories path) ends) :
    world.disk.Furnished (world.run script).2.disk (world.disk.OnTheWay path) := by
  refine h.run (fun state => world.disk.Furnished state.disk (world.disk.OnTheWay path))
    (fun state request hr hs => ?_) (.refl _ _)
  rcases hr with hr | rfl
  · rwa [state.disk_reply_of_reads hr]
  · rcases state.reply_cases (.makeDirectories path) with ⟨_, _, -, hrefused⟩ | hreply
    · rwa [hrefused]
    · rw [hreply]
      refine hs.trans ((state.host.disk.makeDirectories_spec path).mono fun place ⟨other, ho, hd⟩ =>
        ⟨other, ho, ?_⟩)
      rwa [hs.develops.destination_eq] at hd

theorem ProjectOptions.run_resolveRoot {options : ProjectOptions} {root : Path}
    {after : FallibleHost} (h : world.run options.resolveRoot.attempt = (.ok root, after)) :
    world.disk.canonical options.root = .ok root := by
  obtain ⟨_, middle, hpresent, h⟩ := FallibleHost.run_action_bind_ok h
  have hdisk : middle.disk = world.disk := by
    have hsame := Script.Obeys.disk_run (Action.ensurePresent_obeys options.root) world
    rwa [hpresent] at hsame
  have hreply : middle.reply (.canonical options.root) = (.ok root, after) :=
    FallibleHost.run_ofIo_ok h
  rw [← hdisk]
  exact FallibleHost.reply_canonical_ok (congrArg Prod.fst hreply)

/-- The end of an action that is a result or a refusal, and that has made directories at
certain places at most. -/
structure Planned {α : Type} (disk : Disk) (places : Place → Prop)
    (ended : Except Fault α × FallibleHost) : Prop where
  furnished : disk.Furnished ended.2.disk places
  refused : Outcome (fun _ => True) Fault.IsRefusal ended.1

namespace Planned

variable {α β : Type} {action : Action α} {next : α → Action β}

/-- An action that only reads, after others. -/
theorem of_obeys (h : action.Obeys Request.Reads (fun _ => True) Fault.IsRefusal)
    (hw : disk.Furnished world.disk places) : Planned disk places (world.run action.attempt) := by
  have hdisk := Script.Obeys.disk_run h world
  exact ⟨by rwa [hdisk], Script.Obeys.result h⟩

theorem bind (h : Planned disk places (world.run action.attempt))
    (hnext : ∀ value after, world.run action.attempt = (.ok value, after) →
      disk.Furnished after.disk places → Planned disk places (after.run (next value).attempt)) :
    Planned disk places (world.run (action >>= next).attempt) := by
  rw [FallibleHost.run_action_bind]
  rcases hrun : world.run action.attempt with ⟨result, after⟩
  rw [hrun] at h
  cases result with
  | error fault => exact ⟨h.furnished, h.refused⟩
  | ok value => exact hnext value after hrun h.furnished

/-- An action that only reads, before others. -/
theorem bind_reads (h : action.Obeys Request.Reads (fun _ => True) Fault.IsRefusal)
    (hnext : ∀ value after, world.run action.attempt = (.ok value, after) →
      after.disk = world.disk → Planned world.disk places (after.run (next value).attempt)) :
    Planned world.disk places (world.run (action >>= next).attempt) := by
  refine .bind (.of_obeys h (.refl _ _)) fun value after hrun _ => hnext value after hrun ?_
  have hdisk := Script.Obeys.disk_run h world
  rwa [hrun] at hdisk

end Planned

/-- The places of the directory of the reports, and on the way to it. -/
def RunOptions.OutputPlace (options : RunOptions) (disk : Disk) (place : Place) : Prop :=
  ∃ root, disk.canonical options.project.root = .ok root ∧
    disk.OnTheWay (options.project.resolveOutDir root) place

/-- **A plan makes directories for the reports**, and nothing else; when it fails, it is
refused. -/
theorem RunOptions.run_plan (options : RunOptions) (console : Console) (world : FallibleHost) :
    Planned world.disk (options.OutputPlace world.disk)
      (world.run (options.plan console).attempt) := by
  unfold plan
  dsimp only
  split
  · exact ⟨.refl _ _, rfl⟩
  · refine .bind_reads (Setup.load_obeys _) fun setup loaded _ hloaded => ?_
    rw [← hloaded]
    refine .bind_reads (.ofExcept (setup.ruleSet_refuses _)) fun ruleSet chosen _ hchosen => ?_
    rw [← hchosen]
    refine .bind_reads (options.project.resolveRoot_obeys) fun root found hroot hfound => ?_
    have hcanonical := ProjectOptions.run_resolveRoot hroot
    rw [← hfound] at hcanonical ⊢
    -- the root is known, and with it the directory of the reports
    have hout : found.disk.Furnished
        (found.run (prepareOutDir (options.project.resolveOutDir root)).attempt).2.disk
        (options.OutputPlace found.disk) :=
      (Script.Obeys.furnished (prepareOutDir_obeys _)).mono fun place hp => ⟨root, hcanonical, hp⟩
    have hrefused : Outcome (fun _ => True) Fault.IsRefusal
        (found.run (prepareOutDir (options.project.resolveOutDir root)).attempt).1 :=
      Script.Obeys.result (prepareOutDir_obeys _)
    have hgate (plan : Option Gate → RunPlan) : Action.Obeys Request.Reads (fun _ => True)
        Fault.IsRefusal (do
          let gate ← (options.gate? setup root (options.project.resolveOutDir root) : Except Fault _)
          return plan gate) :=
      .bind (.ofExcept (options.gate?_refuses _ _ _)) fun _ _ => .pure trivial
    refine .bind ⟨hout, hrefused⟩ fun _ made _ hmade => .of_obeys ?_ hmade
    refine .bind (Catalog.list_obeys _ _) fun files _ => ?_
    split
    · exact .bind (.lift (Console.line_obeys _ _ _)) fun _ _ => hgate _
    · exact hgate _

end StyleTokens

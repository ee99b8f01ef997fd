/-
What a script may ask, and how it may end.

Some facts about a script hold whatever it is told: that it asks only requests of a
certain kind, and that its result has a certain form.

* `Script.Obeys` — both at once, for all replies;
* `Action.Obeys` — the same for a script that may fail, with what holds of its
  failures;
* `Obeys.run`, `Obeys.states`, `Obeys.log` — what follows for a script that is run;
* `Request.Reads` — requests that change nothing;
* `Script.HandsOver` — scripts that leave the disk to a shell in the end.

Design notes: the rules follow the way in which scripts are put together, so that
a proof about a script has the shape of the script.
-/
import StyleTokens.Proofs.World.Fallible

namespace StyleTokens

variable {α β : Type} {may : Request → Prop}

/-- Whatever it is told, the script asks only what it may, and a result that it ends
with has a property. -/
inductive Script.Obeys (may : Request → Prop) (ends : α → Prop) : Script α → Prop
  | done {value : α} (h : ends value) : Obeys may ends (.done value)
  | step {request : Request} {next : request.Reply → Script α} (h : may request)
    (hnext : ∀ reply, Obeys may ends (next reply)) : Obeys may ends (.ask request next)

namespace Script.Obeys

theorem pure {ends : α → Prop} {value : α} (h : ends value) :
    (Pure.pure value : Script α).Obeys may ends :=
  .done h

theorem request (request : Request) (h : may request) :
    (Script.request request).Obeys may fun _ => True :=
  .step h fun _ => .done trivial

theorem mono {ends ends' : α → Prop} {may' : Request → Prop} {script : Script α}
    (h : script.Obeys may ends) (hmay : ∀ request, may request → may' request)
    (hends : ∀ value, ends value → ends' value) : script.Obeys may' ends' := by
  induction h with
  | done h => exact .done (hends _ h)
  | step h _ ih => exact .step (hmay _ h) ih

theorem bind {middle : α → Prop} {ends : β → Prop} {script : Script α} {next : α → Script β}
    (h : script.Obeys may middle) (hnext : ∀ value, middle value → (next value).Obeys may ends) :
    (script >>= next).Obeys may ends := by
  induction h with
  | done h => exact hnext _ h
  | step h _ ih => exact .step h ih

/-- A request, whatever is replied. -/
theorem ask {ends : β → Prop} {request : Request} {next : request.Reply → Script β}
    (h : may request) (hnext : ∀ reply, (next reply).Obeys may ends) :
    (Script.request request >>= next).Obeys may ends :=
  .step h hnext

/-- Nothing is forbidden, and nothing promised. -/
theorem any (script : Script α) : script.Obeys (fun _ => True) fun _ => True := by
  induction script with
  | done value => exact .done trivial
  | ask request next ih => exact .step trivial ih

/-! ### Scripts that are run -/

variable {ends : α → Prop} {script : Script α} {world : FallibleHost}

theorem log (h : script.Obeys may ends) {exchange : Exchange} (he : exchange ∈ world.log script) :
    may exchange.1 := by
  induction h generalizing world with
  | done _ => simp [FallibleHost.log] at he
  | step h _ ih =>
    rcases List.mem_cons.1 he with rfl | he
    · exact h
    · exact ih _ he

theorem result (h : script.Obeys may ends) : ends (world.run script).1 := by
  induction h generalizing world with
  | done h => exact h
  | step _ _ ih => exact ih _

/-- What every allowed request preserves is preserved by the script. -/
theorem run (h : script.Obeys may ends) (inv : FallibleHost → Prop)
    (step : ∀ world request, may request → inv world → inv (world.reply request).2)
    (hw : inv world) : inv (world.run script).2 := by
  induction h generalizing world with
  | done _ => exact hw
  | step h _ ih => exact ih _ (step world _ h hw)

/-- What every allowed request preserves, shells apart, holds in all states that the
script passes through. -/
theorem states (h : script.Obeys may ends) (inv : FallibleHost → Prop)
    (step : ∀ world request, may request → (∀ job, request ≠ .shell job) → inv world →
      inv (world.reply request).2)
    (hw : inv world) {state : FallibleHost} (hs : state ∈ world.states script) : inv state := by
  induction h generalizing world with
  | done _ =>
    rw [List.mem_singleton.1 hs]
    exact hw
  | @step request _ h _ ih =>
    cases request with
    | shell job =>
      rw [List.mem_singleton.1 hs]
      exact hw
    | _ =>
      rcases List.mem_cons.1 hs with rfl | hs
      · exact hw
      · exact ih _ (step world _ h (by simp) hw) hs

end Script.Obeys

/-- A property of results and one of failures, as a property of outcomes. -/
def Outcome (ends : α → Prop) (fails : Fault → Prop) : Except Fault α → Prop
  | .ok value => ends value
  | .error fault => fails fault

/-- Whatever it is told, the action asks only what it may; its result has one
property, and a failure another one. -/
def Action.Obeys (may : Request → Prop) (ends : α → Prop) (fails : Fault → Prop)
    (action : Action α) : Prop :=
  action.attempt.Obeys may (Outcome ends fails)

namespace Action.Obeys

variable {fails : Fault → Prop}

theorem pure {ends : α → Prop} {value : α} (h : ends value) :
    Action.Obeys may ends fails (Pure.pure value) :=
  .done h

theorem throw {ends : α → Prop} {fault : Fault} (h : fails fault) :
    Action.Obeys may ends fails (MonadExcept.throw fault) :=
  .done h

theorem mono {ends ends' : α → Prop} {fails' : Fault → Prop} {may' : Request → Prop}
    {action : Action α} (h : action.Obeys may ends fails)
    (hmay : ∀ request, may request → may' request) (hends : ∀ value, ends value → ends' value)
    (hfails : ∀ fault, fails fault → fails' fault) : action.Obeys may' ends' fails' := by
  refine Script.Obeys.mono h hmay fun result hr => ?_
  cases result with
  | ok value => exact hends value hr
  | error fault => exact hfails fault hr

theorem bind {middle : α → Prop} {ends : β → Prop} {action : Action α} {next : α → Action β}
    (h : action.Obeys may middle fails)
    (hnext : ∀ value, middle value → (next value).Obeys may ends fails) :
    Action.Obeys may ends fails (action >>= next) := by
  show Script.Obeys may _ (action >>= next).run
  rw [ExceptT.run_bind]
  refine Script.Obeys.bind h fun result hr => ?_
  cases result with
  | ok value => exact hnext value hr
  | error fault => exact .done hr

/-- A script that cannot fail, as an action. -/
theorem lift {ends : α → Prop} {script : Script α} (h : script.Obeys may ends) :
    Action.Obeys may ends fails (liftM script : Action α) :=
  Script.Obeys.bind h fun _ hv => .done hv

/-- A result that is there already, as an action. -/
theorem ofExcept {ends : α → Prop} {result : Except Fault α} (h : Outcome ends fails result) :
    Action.Obeys may ends fails (liftM result : Action α) := by
  cases result with
  | ok value => exact .done h
  | error fault => exact .done h

/-- A script of the file system; it fails as the file system does. -/
theorem ofIo {ends : α → Prop} {script : Script (Except IoCause α)}
    (h : script.Obeys may fun result =>
      match result with
      | .ok value => ends value
      | .error cause => fails (.io cause)) :
    Action.Obeys may ends fails (Action.ofIo script) := by
  refine Script.Obeys.bind h fun result hr => ?_
  cases result with
  | ok value => exact .done hr
  | error cause => exact .done hr

/-- A script of the file system that may be refused for every cause. -/
theorem ofIo_fails {script : Script (Except IoCause α)} (hio : ∀ cause, fails (.io cause))
    (h : script.Obeys may fun _ => True) :
    Action.Obeys may (fun _ => True) fails (Action.ofIo script) := by
  refine .ofIo (h.mono (fun _ h => h) fun result _ => ?_)
  cases result with
  | ok value => trivial
  | error cause => exact hio cause

/-- A script of the file system, whatever its outcome. -/
theorem ofIo_any {script : Script (Except IoCause α)} (h : script.Obeys may fun _ => True) :
    Action.Obeys may (fun _ => True) (fun _ => True) (Action.ofIo script) :=
  ofIo_fails (fun _ => trivial) h

end Action.Obeys

/-! ### Requests that change nothing -/

/-- Whether a request leaves the disk alone. -/
def Request.Reads : Request → Prop
  | .makeDirectories _ => False
  | .write _ _ => False
  | .create _ _ => False
  | .shell _ => False
  | _ => True

theorem FallibleHost.disk_reply_of_reads (world : FallibleHost) {request : Request}
    (h : request.Reads) : (world.reply request).2.disk = world.disk := by
  rcases world.reply_cases request with ⟨_, _, -, hr⟩ | hr
  · rw [hr]
  · rw [hr]
    show (world.host.reply request).2.disk = world.host.disk
    cases request with
    | makeDirectories path => exact h.elim
    | write path data => exact h.elim
    | create path data => exact h.elim
    | shell job => exact h.elim
    | say stream text => cases stream <;> rfl
    | _ => rfl

theorem FallibleHost.disk_eq_of_reply {world later : FallibleHost} {request : Request}
    {answer : request.Reply} (hr : world.reply request = (answer, later)) (h : request.Reads) :
    later.disk = world.disk := by
  have hsame := world.disk_reply_of_reads h
  rwa [hr] at hsame

/-- A script that only reads leaves the disk alone. -/
theorem Script.Obeys.disk_run {ends : α → Prop} {script : Script α}
    (h : script.Obeys Request.Reads ends) (world : FallibleHost) :
    (world.run script).2.disk = world.disk :=
  h.run (·.disk = world.disk) (fun state _ hr hs => (state.disk_reply_of_reads hr).trans hs) rfl

theorem Script.Obeys.disk_of_run {ends : α → Prop} {script : Script α} {value : α}
    {world later : FallibleHost} (h : script.Obeys Request.Reads ends)
    (hrun : world.run script = (value, later)) : later.disk = world.disk := by
  rw [← h.disk_run world, hrun]

/-! ### Scripts that hand over to a shell -/

/-- A script that asks what it may until it hands over to a shell, if it ever does, and
that only reads afterwards. -/
inductive Script.HandsOver (may : Request → Prop) (job : Job) : Script α → Prop
  | done (value : α) : HandsOver may job (.done value)
  | shell {next : Except IoCause JobEnd → Script α}
    (h : ∀ reply, (next reply).Obeys Request.Reads fun _ => True) :
    HandsOver may job (.ask (.shell job) next)
  | step {request : Request} {next : request.Reply → Script α} (h : may request)
    (hnext : ∀ reply, HandsOver may job (next reply)) : HandsOver may job (.ask request next)

namespace Script.HandsOver

variable {job : Job}

theorem of_obeys {ends : α → Prop} {script : Script α} (h : script.Obeys may ends) :
    script.HandsOver may job := by
  induction h with
  | done _ => exact .done _
  | step h _ ih => exact .step h ih

theorem bind_obeys {middle : α → Prop} {script : Script α} {next : α → Script β}
    (h : script.Obeys may middle) (hnext : ∀ value, middle value → (next value).HandsOver may job) :
    (script >>= next).HandsOver may job := by
  induction h with
  | done h => exact hnext _ h
  | step h _ ih => exact .step h ih

theorem bind_reads {script : Script α} {next : α → Script β} (h : script.HandsOver may job)
    (hmay : ∀ request, request.Reads → may request)
    (hnext : ∀ value, (next value).Obeys Request.Reads fun _ => True) :
    (script >>= next).HandsOver may job := by
  induction h with
  | done value => exact .of_obeys ((hnext value).mono hmay fun _ h => h)
  | shell h => exact .shell fun reply => .bind (h reply) fun value _ => hnext value
  | step h _ ih => exact .step h ih

/-- What such a script asks in all. -/
theorem obeys {script : Script α} (h : script.HandsOver may job)
    (hmay : ∀ request, request.Reads → may request) :
    script.Obeys (fun request => request = .shell job ∨ may request) fun _ => True := by
  induction h with
  | done _ => exact .done trivial
  | shell h => exact .step (Or.inl rfl) fun reply =>
      (h reply).mono (fun _ hr => Or.inr (hmay _ hr)) fun _ h => h
  | step h _ ih => exact .step (Or.inr h) ih

/-- Either the script has asked no shell, or it has left the disk to it. -/
theorem run {script : Script α} {world : FallibleHost} (h : script.HandsOver may job)
    (inv : FallibleHost → Prop)
    (step : ∀ world request, may request → inv world → inv (world.reply request).2)
    (hw : inv world) : inv (world.run script).2 ∨ ∃ state, inv state ∧
      (world.run script).2.disk = (state.reply (.shell job)).2.disk := by
  induction h generalizing world with
  | done _ => exact Or.inl hw
  | shell h => exact Or.inr ⟨world, hw, (h _).disk_run _⟩
  | step h _ ih => exact ih _ (step world _ h hw)

end Script.HandsOver

end StyleTokens

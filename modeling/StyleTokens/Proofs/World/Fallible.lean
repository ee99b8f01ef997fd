/-
Hosts that refuse.

A full disk, a file that may not be read and a directory that may not be entered
all look the same to a script: a request is refused, and nothing happens.  A
fallible host is a host together with a plan of such refusals; as the plan is
arbitrary, what holds in every fallible host holds whatever goes wrong, and whenever.

* `FallibleHost` — a host and a plan of refusals, with `reply` and `run`;
* `FallibleHost.log` — what a script asked, with the replies;
* `FallibleHost.states` — the states that a script passes through before it hands
  over to a shell;
* `run_of_never` — a host that refuses nothing is a plain host.

Design notes: a request is known by its number, so that the plan may refuse a
request and grant the same one later on.  A question for yes or no is refused by
a plain no, as the programs that ask it cannot tell the two apart.
-/
import StyleTokens.Host

namespace StyleTokens

/-- What the one who asks is told when a request is refused.  The clock, the
environment and the streams refuse nothing. -/
def Request.refusal? (cause : IoCause) : (request : Request) → Option request.Reply
  | .present _ => some false
  | .isDirectory _ => some false
  | .isFile _ => some false
  | .size _ => some (.error cause)
  | .read _ => some (.error cause)
  | .canonical _ => some (.error cause)
  | .files _ => some (.error cause)
  | .makeDirectories _ => some (.error cause)
  | .write _ _ => some (.error cause)
  | .create _ _ => some (.error cause)
  | .shell _ => some (.error cause)
  | .now => none
  | .uptime => none
  | .environment _ => none
  | .say _ _ => none

/-- A host that refuses some of the requests. -/
structure FallibleHost where
  host : Host
  /-- Why a request is refused, if it is, by the number of requests before it. -/
  refusal : Nat → Request → Option IoCause := fun _ _ => none
  /-- The number of requests so far. -/
  asked : Nat := 0

/-- A request with the reply to it. -/
abbrev Exchange := (request : Request) × request.Reply

namespace FallibleHost

variable {α β : Type}

/-- The files, directories and links. -/
abbrev disk (world : FallibleHost) : Disk := world.host.disk

/-- The reply to a request, and the world after it.  A request that is refused
changes nothing. -/
def reply (world : FallibleHost) (request : Request) : request.Reply × FallibleHost :=
  match (world.refusal world.asked request).bind (Request.refusal? · request) with
  | some answer => (answer, { world with asked := world.asked + 1 })
  | none =>
    ((world.host.reply request).1,
      { world with host := (world.host.reply request).2, asked := world.asked + 1 })

/-- The result of a script, and the world after it. -/
def run (world : FallibleHost) : Script α → α × FallibleHost
  | .done value => (value, world)
  | .ask request next =>
    (world.reply request).2.run (next (world.reply request).1)

/-- What a script asks, with the replies, in order. -/
def log (world : FallibleHost) : Script α → List Exchange
  | .done _ => []
  | .ask request next =>
    ⟨request, (world.reply request).1⟩ ::
      (world.reply request).2.log (next (world.reply request).1)

/-- The states that a script passes through, the first one included, until it hands
over to a shell or ends.  They are what a crash could leave behind. -/
def states (world : FallibleHost) : Script α → List FallibleHost
  | .done _ => [world]
  | .ask (.shell _) _ => [world]
  | .ask request next => world :: (world.reply request).2.states (next (world.reply request).1)

/-- A request is refused, or the host replies. -/
theorem reply_cases (world : FallibleHost) (request : Request) :
    (∃ cause answer, request.refusal? cause = some answer ∧
      world.reply request = (answer, { world with asked := world.asked + 1 })) ∨
    world.reply request = ((world.host.reply request).1,
      { world with host := (world.host.reply request).2, asked := world.asked + 1 }) := by
  unfold reply
  split
  · next answer h =>
    obtain ⟨cause, -, h⟩ := Option.bind_eq_some_iff.1 h
    exact Or.inl ⟨cause, answer, h, rfl⟩
  · exact Or.inr rfl

/-! ### Running scripts in parts -/

@[simp] theorem run_pure (world : FallibleHost) (value : α) :
    world.run (pure value : Script α) = (value, world) := rfl

@[simp] theorem run_request (world : FallibleHost) (request : Request) :
    world.run (Script.request request) = world.reply request := rfl

@[simp] theorem run_bind (world : FallibleHost) (script : Script α) (next : α → Script β) :
    world.run (script >>= next) = (world.run script).2.run (next (world.run script).1) := by
  induction script generalizing world with
  | done value => rfl
  | ask request rest ih => exact ih _ _

@[simp] theorem log_pure (world : FallibleHost) (value : α) :
    world.log (pure value : Script α) = [] := rfl

@[simp] theorem log_request (world : FallibleHost) (request : Request) :
    world.log (Script.request request) = [⟨request, (world.reply request).1⟩] := rfl

@[simp] theorem log_bind (world : FallibleHost) (script : Script α) (next : α → Script β) :
    world.log (script >>= next) =
      world.log script ++ (world.run script).2.log (next (world.run script).1) := by
  induction script generalizing world with
  | done value => rfl
  | ask request rest ih => exact congrArg _ (ih _ _)

/-- An action in two parts: when the first fails, the second does not run. -/
theorem run_action_bind (world : FallibleHost) (action : Action α) (next : α → Action β) :
    world.run (action >>= next).attempt =
      match world.run action.attempt with
      | (.ok value, after) => after.run (next value).attempt
      | (.error fault, after) => (.error fault, after) := by
  show world.run (action >>= next).run = _
  rw [ExceptT.run_bind, run_bind]
  show _ = match world.run action.run with
    | (.ok value, after) => after.run (next value).run
    | (.error fault, after) => (.error fault, after)
  rcases world.run action.run with ⟨_ | _, _⟩ <;> rfl

@[simp] theorem run_action_pure (world : FallibleHost) (value : α) :
    world.run (pure value : Action α).attempt = (.ok value, world) := rfl

@[simp] theorem log_action_pure (world : FallibleHost) (value : α) :
    world.log (pure value : Action α).attempt = [] := rfl

/-- An action in two parts that succeeds does so in both. -/
theorem run_action_bind_ok {world after : FallibleHost} {action : Action α} {next : α → Action β}
    {value : β} (h : world.run (action >>= next).attempt = (.ok value, after)) :
    ∃ first middle, world.run action.attempt = (.ok first, middle) ∧
      middle.run (next first).attempt = (.ok value, after) := by
  rw [run_action_bind] at h
  split at h
  · next first middle hf => exact ⟨first, middle, hf, h⟩
  · cases h

/-- A script that cannot fail, as an action. -/
@[simp] theorem run_action_lift (world : FallibleHost) (script : Script α) :
    world.run (liftM script : Action α).attempt =
      (.ok (world.run script).1, (world.run script).2) := by
  show world.run (script >>= fun value => pure (Except.ok value)) = _
  rw [run_bind]
  rfl

/-- An action that goes on with a result, failed or not. -/
@[simp] theorem run_action_settle (world : FallibleHost) (action : Action α) :
    world.run action.settle.attempt =
      (.ok (world.run action.attempt).1, (world.run action.attempt).2) :=
  run_action_lift world action.attempt

/-- What an action in two parts asks. -/
theorem log_action_bind (world : FallibleHost) (action : Action α) (next : α → Action β) :
    world.log (action >>= next).attempt = world.log action.attempt ++
      match world.run action.attempt with
      | (.ok value, after) => after.log (next value).attempt
      | (.error _, _) => [] := by
  show world.log (action >>= next).run = _
  rw [ExceptT.run_bind, log_bind]
  show _ = world.log action.run ++ match world.run action.run with
    | (.ok value, after) => after.log (next value).run
    | (.error _, _) => []
  rcases world.run action.run with ⟨_ | _, _⟩ <;> rfl

@[simp] theorem log_action_lift (world : FallibleHost) (script : Script α) :
    world.log (liftM script : Action α).attempt = world.log script := by
  show world.log (script >>= fun value => pure (Except.ok value)) = _
  rw [log_bind, log_pure, List.append_nil]

theorem attempt_ofIo (script : Script (Except IoCause α)) :
    (Action.ofIo script).attempt = script >>= fun result => pure (result.mapError Fault.io) := by
  refine congrArg (script >>= ·) (funext fun result => ?_)
  cases result <;> rfl

/-- A script of the file system fails as the file system does. -/
@[simp] theorem run_ofIo (world : FallibleHost) (script : Script (Except IoCause α)) :
    world.run (Action.ofIo script).attempt =
      ((world.run script).1.mapError Fault.io, (world.run script).2) := by
  rw [attempt_ofIo, run_bind, run_pure]

@[simp] theorem log_ofIo (world : FallibleHost) (script : Script (Except IoCause α)) :
    world.log (Action.ofIo script).attempt = world.log script := by
  rw [attempt_ofIo, log_bind, log_pure, List.append_nil]

theorem run_ofIo_ok {world after : FallibleHost} {script : Script (Except IoCause α)} {value : α}
    (h : world.run (Action.ofIo script).attempt = (.ok value, after)) :
    world.run script = (.ok value, after) := by
  rw [run_ofIo] at h
  rcases hscript : world.run script with ⟨result, later⟩
  rw [hscript] at h
  cases result with
  | ok value =>
    cases h
    rfl
  | error cause => cases h

/-! ### Hosts that refuse nothing -/

/-- **A host that refuses nothing is a plain host.** -/
theorem run_of_never (world : FallibleHost) (h : ∀ n request, world.refusal n request = none)
    (script : Script α) :
    (world.run script).1 = (world.host.run script).1 ∧
      (world.run script).2.host = (world.host.run script).2 := by
  induction script generalizing world with
  | done value => exact ⟨rfl, rfl⟩
  | ask request next ih =>
    have hr : world.reply request = ((world.host.reply request).1,
        { world with host := (world.host.reply request).2, asked := world.asked + 1 }) := by
      rw [reply, h]
      rfl
    have := ih (world.reply request).1 (world.reply request).2 (by rw [hr]; exact h)
    rw [hr] at this
    rw [run, hr]
    exact this

end FallibleHost

end StyleTokens

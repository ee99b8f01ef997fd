/-
Streams that lead elsewhere.

* `Run.aimed` — redirections with the texts of their targets;
* `Run.redirect` — carries out redirections, one after another;
* `Run.redirected` — an action with redirected streams, which lead back afterwards.
-/
import StyleTokens.Shell.Expansion

namespace StyleTokens.Shell

/-- A redirection whose target has been expanded, but for that of a document. -/
structure Aim where
  kind : RedirectKind
  stream : Nat
  target : String
  document : Word
  deriving Inhabited

namespace Run

/-- A redirection with the text of its target. -/
def aim (evaluator : Evaluator) : Redirect → Run Aim
  | .mk kind stream word => do
    match kind with
    | .text => return { kind, stream, target := "", document := word }
    | .same =>
      let target ←
        match word with
        | [.text false signs] => pure (String.ofList signs)
        | _ => pure ((← fieldsOf evaluator word).head?.getD "")
      let isKnown := target = "-" || (target.length = 1 && target.all Char.isDigit)
      if !isKnown then
        modify fun process => { process with command := none }
        fail "Syntax error: Bad fd number"
      return { kind, stream, target, document := [] }
    | _ => return { kind, stream, target := ← textOf evaluator word, document := [] }

/-- Redirections with the texts of their targets. -/
def aimed (evaluator : Evaluator) (redirects : List Redirect) : Run (List Aim) :=
  redirects.mapM (aim evaluator)

/-- Why a file could not be opened, or made, in words. -/
def openingReason (creates : Bool) (cause : IoCause) : String :=
  match cause with
  | .notFound | .notDirectory => if creates then "Directory nonexistent" else "No such file"
  | cause => reasonOf cause

/-- Refuses to open a file. -/
def refuseToOpen {α : Type} (creates : Bool) (path : String) (cause : IoCause) : Run α :=
  let verb := if creates then "create" else "open"
  fail ("cannot " ++ verb ++ " " ++ path ++ ": " ++ openingReason creates cause)

/-- Opens a file at a stream. -/
def openAt (stream : Nat) (path : String) (how : Opening) : Run Unit := do
  match ← openAs stream path { how with mask := (← get).mask } with
  | .ok _ => return
  | .error cause => refuseToOpen how.creates path cause

/-- Opens a file that must not lose what it has. -/
def openProtected (stream : Nat) (path : String) : Run Unit := do
  let process ← get
  let found ← look fun world => world.entryAt process.id process.here true path
  match found with
  | .error _ => openAt stream path { writes := true, creates := true, exclusive := true }
  | .ok (_, .file _) => refuseToOpen true path .alreadyExists
  | .ok _ => openAt stream path { writes := true }

/-- Makes a stream lead to a text. -/
def openText (stream : Nat) (text : String) : Run Unit := do
  let id := (← get).id
  act (Act.alter fun world =>
    let pipe := world.fresh
    let (world, source, _) := world.openPipe
    let pipes := (pipe, Octets.toBytes text.toList) :: world.pipes.filter (·.1 ≠ pipe)
    { world.connect id stream source with pipes })

/-- Carries out a redirection. -/
def redirectOne (evaluator : Evaluator) (aim : Aim) : Run Unit := do
  let id := (← get).id
  match aim.kind with
  | .read => openAt aim.stream aim.target { reads := true }
  | .readWrite => openAt aim.stream aim.target { reads := true, writes := true, creates := true }
  | .write =>
    if ← isOn 'C' then openProtected aim.stream aim.target
    else openAt aim.stream aim.target { writes := true, creates := true, empties := true }
  | .clobber => openAt aim.stream aim.target { writes := true, creates := true, empties := true }
  | .append => openAt aim.stream aim.target { writes := true, creates := true, appends := true }
  | .same =>
    match aim.target.toNat? with
    | none => act (Act.close id aim.stream)
    | some source =>
      if source ≠ aim.stream then
        match ← act (Act.duplicate id source aim.stream) with
        | .ok _ => return
        | .error cause => fail (toString source ++ ": " ++ reasonOf cause)
  | .text =>
    let text := Stretch.text (← stretches evaluator wordFuel {} false aim.document)
    openText aim.stream text

/-- Whether a redirection changes a stream at all. -/
def Aim.changes (aim : Aim) : Bool :=
  !(aim.kind = .same && aim.target.toNat? = some aim.stream)

/-- Carries out redirections up to one that is refused; gives the streams that were
kept, and the status. -/
def redirect (evaluator : Evaluator) (keeps : Bool) : Kept → List Aim → Run (Kept × Nat)
  | kept, [] => return (kept, 0)
  | kept, aim :: rest => do
    -- A file is opened before the stream is kept, so that it gets no place of its own.
    let after ← if keeps && Aim.changes aim then keepStream kept aim.stream else pure kept
    match ← attempt (redirectOne evaluator aim) with
    | .ok _ => redirect evaluator keeps after rest
    | .error .failure => return (after, 2)
    | .error halt =>
      restoreStreams after
      throw halt

/-- Forgets where streams led before. -/
def dropStreams (kept : Kept) : Run Unit := do
  let id := (← get).id
  act (Act.alter fun world =>
    kept.foldl (fun world (_, copy) =>
      match copy with
      | some copy => world.close id copy
      | none => world) world)

/-- An action with redirected streams, which lead back afterwards; the action gets the
status of the redirections. -/
def redirected {α : Type} (evaluator : Evaluator) (aims : List Aim)
    (action : Kept → Nat → Run α) : Run α := do
  let (kept, status) ← redirect evaluator true [] aims
  let result ← attempt (action kept status)
  restoreStreams kept
  resume result

end Run

end StyleTokens.Shell

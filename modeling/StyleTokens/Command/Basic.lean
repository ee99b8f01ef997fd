/-
The commands, and what the options of a project stand for.

* `Command` — what a user can ask for, with all options;
* `ProjectOptions.resolveRoot`, `resolveOutDir`, `resolveBackupDir` — the places;
* `Setup.load` — the configuration of a file, or the built-in one;
* `SourceOptions.source` — where the files come from.
-/
import StyleTokens.Builtin
import StyleTokens.Catalog

namespace StyleTokens

/-- Where a project and its files lie. -/
structure ProjectOptions where
  root : Path := ⟨"."⟩
  /-- The directory of reports and gate logs; the root if not given. -/
  outDir : Option Path := none
  /-- The configuration; the built-in one if not given. -/
  config : Option Path := none
  /-- The directory of the backups; `backups` below the root if not given. -/
  backupDir : Option Path := none
  /-- Fragments of the paths to leave out, besides the configured ones. -/
  exclude : List String := []
  deriving DecidableEq, Repr, Inhabited

/-- Where the files of a command come from; the configured glob if neither is given. -/
structure SourceOptions where
  report : Option Path := none
  glob : Option String := none
  deriving DecidableEq, Repr, Inhabited

/-- A request to revise one batch. -/
structure RunOptions where
  ruleSet : String
  start : Nat := 0
  batchSize : Nat := 20
  source : SourceOptions := {}
  project : ProjectOptions := {}
  gateCommand : Option String := none
  gateTimeout : Option String := none
  skipGate : Bool := false
  dryRun : Bool := false
  noBackup : Bool := false
  refreshBackups : Bool := false
  deriving DecidableEq, Repr, Inhabited

/-- A request to look for literals. -/
structure ScanOptions where
  ruleSet : String
  source : SourceOptions := {}
  project : ProjectOptions := {}
  deriving DecidableEq, Repr, Inhabited

/-- A request to write backups back. -/
structure RestoreOptions where
  /-- The manifest; the one in the directory of the backups if not given. -/
  manifest : Option Path := none
  project : ProjectOptions := {}
  deriving DecidableEq, Repr, Inhabited

/-- A request. -/
inductive Command
  | run (options : RunOptions)
  | scan (options : ScanOptions)
  | restore (options : RestoreOptions)
  | listRules (config : Option Path)
  deriving DecidableEq, Repr, Inhabited

namespace ProjectOptions

/-- The root without links and dots; it has to be there. -/
def resolveRoot (options : ProjectOptions) : Action Path := do
  Action.ensurePresent options.root
  Action.ofIo (Script.request (.canonical options.root))

/-- The directory of reports. -/
def resolveOutDir (options : ProjectOptions) (root : Path) : Path :=
  options.outDir.getD root

/-- The directory of backups. -/
def resolveBackupDir (options : ProjectOptions) (root : Path) : Path :=
  options.backupDir.getD (root.child "backups")

end ProjectOptions

/-- The checked configuration of a file, or the built-in one. -/
def Setup.load (path : Option Path) : Action Setup := do
  let configuration ←
    match path with
    | none => pure Builtin.configuration
    | some path => do
      Action.ensurePresent path
      let text ← Action.readText path
      Configuration.parse text
  configuration.checked

/-- Where the files come from. -/
def SourceOptions.source (options : SourceOptions) (setup : Setup) : Source :=
  match options.report, options.glob with
  | some path, _ => .report path
  | none, some glob => .glob glob
  | none, none => .glob setup.configuration.includeGlob

end StyleTokens

/-
What is typed on the command line.

A command has a name, options and perhaps one word.  An option is followed by its
value, or joined to it by an equals sign; a flag has no value.  Two dashes on
their own end the options.

* `Usage` — the ways in which a line is refused, or asks for help only;
* `Grammar` — the options of a command and whether it takes a word;
* `Grammar.read` — the values that a line gives to the options of a grammar;
* `Command.ofArguments` — the command that a line denotes.

Design notes: a value is not looked at before the next option or word turns up,
so a line that goes on with an unknown option is refused for that option.
-/
import StyleTokens.Command.Basic
import StyleTokens.Count

namespace StyleTokens

/-- Why a line does not denote a command. -/
inductive Usage
  /-- A value is missing, or is a path without text. -/
  | invalidValue
  /-- A value is not a number. -/
  | valueValidation
  /-- An option is given twice, or along with one that excludes it. -/
  | argumentConflict
  /-- A flag is given a value. -/
  | tooManyValues
  | unknownArgument
  | missingRequiredArgument
  | invalidSubcommand
  /-- The line is empty. -/
  | missingCommand
  | help
  | version
  deriving DecidableEq, Repr, Inhabited

namespace Usage

/-- The refusal in words. -/
def message : Usage → String
  | invalidValue => "an option lacks its value"
  | valueValidation => "a value is not a number"
  | argumentConflict => "options exclude each other"
  | tooManyValues => "a flag takes no value"
  | unknownArgument => "an argument is not known"
  | missingRequiredArgument => "the name of a rule set is missing"
  | invalidSubcommand => "there is no such command"
  | missingCommand | help => "commands: run, scan, restore, list-rules"
  | version => "style tokens"

/-- The code with which the program ends: help that was asked for is no failure. -/
def exitCode : Usage → Nat
  | help | version => 0
  | _ => 2

end Usage

/-- What an option takes. -/
inductive OptionKind
  | flag
  | text
  | path
  /-- A number below 2^64. -/
  | number
  deriving DecidableEq, Repr, Inhabited

/-- An option of a command. -/
structure OptionRule where
  name : String
  kind : OptionKind
  /-- Whether it may be given more than once. -/
  repeatable : Bool := false
  deriving DecidableEq, Repr, Inhabited

/-- What may be typed after the name of a command. -/
structure Grammar where
  options : List OptionRule
  takesWord : Bool := false
  deriving DecidableEq, Repr, Inhabited

/-- What was typed: values by the names of their options, flags with an empty one,
and the word. -/
structure Reading where
  given : List (String × String) := []
  word : Option String := none
  deriving DecidableEq, Repr, Inhabited

/-- The number that digits denote, with or without a plus sign. -/
def number? (text : String) : Option Nat :=
  let digits :=
    match text.toList with
    | '+' :: rest => rest
    | all => all
  if digits.isEmpty || !digits.all Char.isDigit then none
  else
    let n := digits.foldl (fun n c => n * 10 + (c.toNat - 48)) 0
    if n < Count.bound then some n else none

namespace Reading

/-- All values of an option. -/
def values (reading : Reading) (name : String) : List String :=
  (reading.given.filter (·.1 == name)).map (·.2)

/-- The value of an option. -/
def value? (reading : Reading) (name : String) : Option String :=
  reading.given.lookup name

/-- Whether an option or a flag is given. -/
def has (reading : Reading) (name : String) : Bool :=
  (reading.value? name).isSome

/-- The value of an option as a path. -/
def path? (reading : Reading) (name : String) : Option Path :=
  (reading.value? name).map Path.mk

/-- The value of an option as a number. -/
def nat (reading : Reading) (name : String) (default : Nat) : Nat :=
  ((reading.value? name).bind number?).getD default

/-- Adds a value of an option. -/
def give (reading : Reading) (rule : OptionRule) (value : String) : Except Usage Reading :=
  if reading.has rule.name && !rule.repeatable then throw .argumentConflict
  else if rule.kind = .path && value = "" then throw .invalidValue
  else if rule.kind = .number && (number? value).isNone then throw .valueValidation
  else return { reading with given := reading.given ++ [(rule.name, value)] }

end Reading

/-- An option whose value has not been looked at. -/
structure Awaited where
  rule : OptionRule
  value : Option String
  deriving DecidableEq, Repr, Inhabited

/-- Looks at the value of the last option. -/
def Reading.settle (reading : Reading) : Option Awaited → Except Usage Reading
  | none => return reading
  | some ⟨_, none⟩ => throw .invalidValue
  | some ⟨rule, some value⟩ => reading.give rule value

/-- An argument by its form. -/
inductive ArgumentForm
  /-- Two dashes. -/
  | dashes
  | long (name : String) (value : Option String)
  | short (letter : Char)
  | word (text : String)
  deriving DecidableEq, Repr, Inhabited

/-- The form of an argument; a single dash is a word. -/
def ArgumentForm.of (argument : String) : ArgumentForm :=
  match argument.toList with
  | ['-', '-'] => .dashes
  | '-' :: '-' :: rest =>
    let name := String.ofList (rest.takeWhile (· ≠ '='))
    match rest.dropWhile (· ≠ '=') with
    | [] => .long name none
    | _ :: value => .long name (some (String.ofList value))
  | '-' :: letter :: _ => .short letter
  | _ => .word argument

namespace Grammar

/-- Reads arguments after which only words come. -/
def readWords (grammar : Grammar) (awaited : Option Awaited) (reading : Reading) :
    List String → Except Usage Reading
  | [] => reading.settle awaited
  | word :: rest => do
    if !grammar.takesWord || reading.word.isSome then throw .unknownArgument
    let reading ← reading.settle awaited
    grammar.readWords none { reading with word } rest

/-- Reads an option with the value that is joined to it; the one that awaits its
value comes back along with the reading. -/
def readOption (grammar : Grammar) (awaited : Option Awaited) (reading : Reading)
    (name : String) (joined : Option String) : Except Usage (Option Awaited × Reading) :=
  match grammar.options.find? (·.name == name) with
  | none =>
    if name = "help" then
      if joined.isSome then throw .tooManyValues
      else do
        discard (reading.settle awaited)
        throw .help
    else throw .unknownArgument
  | some rule =>
    if rule.kind = .flag then
      if joined.isSome then throw .tooManyValues
      else do
        let reading ← reading.settle awaited
        return (none, ← reading.give rule "")
    else do
      let reading ← reading.settle awaited
      match joined with
      | some value => return (none, ← reading.give rule value)
      | none => return (some ⟨rule, none⟩, reading)

/-- Reads arguments. -/
def readFrom (grammar : Grammar) (awaited : Option Awaited) (reading : Reading) :
    List String → Except Usage Reading
  | [] => reading.settle awaited
  | argument :: rest =>
    match ArgumentForm.of argument with
    | .dashes => grammar.readWords awaited reading rest
    | .long name joined => do
      let (awaited, reading) ← grammar.readOption awaited reading name joined
      grammar.readFrom awaited reading rest
    | .short letter =>
      if letter = 'h' then do
        discard (reading.settle awaited)
        throw .help
      else throw .unknownArgument
    | .word text =>
      match awaited with
      | some ⟨rule, none⟩ => grammar.readFrom (some ⟨rule, some text⟩) reading rest
      | _ =>
        if !grammar.takesWord || reading.word.isSome then throw .unknownArgument
        else do
          let reading ← reading.settle awaited
          grammar.readFrom none { reading with word := some text } rest

/-- What arguments give to the options. -/
def read (grammar : Grammar) (arguments : List String) : Except Usage Reading :=
  grammar.readFrom none {} arguments

end Grammar

/-- The options of a project. -/
def projectRules : List OptionRule := [
  { name := "root", kind := .path },
  { name := "out-dir", kind := .path },
  { name := "config", kind := .path },
  { name := "backup-dir", kind := .path },
  { name := "exclude", kind := .text, repeatable := true }]

/-- The options that tell where files come from. -/
def sourceRules : List OptionRule := [
  { name := "source", kind := .path },
  { name := "glob", kind := .text }]

/-- The grammar of `run`. -/
def runGrammar : Grammar where
  takesWord := true
  options := sourceRules ++ projectRules ++ [
    { name := "start", kind := .number },
    { name := "batch-size", kind := .number },
    { name := "gate-command", kind := .text },
    { name := "gate-timeout", kind := .text },
    { name := "skip-gate", kind := .flag },
    { name := "dry-run", kind := .flag },
    { name := "no-backup", kind := .flag },
    { name := "refresh-backups", kind := .flag }]

/-- The grammar of `scan`. -/
def scanGrammar : Grammar where
  takesWord := true
  options := sourceRules ++ projectRules

/-- The grammar of `restore`. -/
def restoreGrammar : Grammar where
  options := { name := "manifest", kind := .path } :: projectRules

/-- The grammar of `list-rules`. -/
def listRulesGrammar : Grammar where
  options := [{ name := "config", kind := .path }]

namespace Reading

/-- The options of a project. -/
def project (reading : Reading) : ProjectOptions :=
  { root := (reading.path? "root").getD ⟨"."⟩
    outDir := reading.path? "out-dir"
    config := reading.path? "config"
    backupDir := reading.path? "backup-dir"
    exclude := reading.values "exclude" }

/-- The options that tell where files come from; they exclude each other. -/
def source (reading : Reading) : Except Usage SourceOptions :=
  if reading.has "source" && reading.has "glob" then throw .argumentConflict
  else return ⟨reading.path? "source", reading.value? "glob"⟩

/-- The word, which has to be there. -/
def requiredWord (reading : Reading) : Except Usage String :=
  match reading.word with
  | some word => return word
  | none => throw .missingRequiredArgument

end Reading

namespace Command

/-- The names of the commands. -/
def names : List String :=
  ["run", "scan", "restore", "list-rules"]

/-- The command of a name with its arguments. -/
def ofName (name : String) (arguments : List String) : Except Usage Command :=
  match name with
  | "run" => do
    let reading ← runGrammar.read arguments
    let source ← reading.source
    return .run {
      ruleSet := ← reading.requiredWord
      start := reading.nat "start" 0
      batchSize := reading.nat "batch-size" 20
      source
      project := reading.project
      gateCommand := reading.value? "gate-command"
      gateTimeout := reading.value? "gate-timeout"
      skipGate := reading.has "skip-gate"
      dryRun := reading.has "dry-run"
      noBackup := reading.has "no-backup"
      refreshBackups := reading.has "refresh-backups" }
  | "scan" => do
    let reading ← scanGrammar.read arguments
    let source ← reading.source
    return .scan { ruleSet := ← reading.requiredWord, source, project := reading.project }
  | "restore" => do
    let reading ← restoreGrammar.read arguments
    return .restore { manifest := reading.path? "manifest", project := reading.project }
  | "list-rules" => do
    let reading ← listRulesGrammar.read arguments
    return .listRules (reading.path? "config")
  | _ => throw .invalidSubcommand

/-- What is refused or shown when help on a command is asked for. -/
def helpOn : List String → Usage
  | [] => .help
  | [name] => if name = "help" || names.contains name then .help else .invalidSubcommand
  | _ => .invalidSubcommand

/-- The command that a line denotes. -/
def ofArguments : List String → Except Usage Command
  | [] => throw .missingCommand
  | first :: rest =>
    match ArgumentForm.of first with
    | .word "help" => throw (helpOn rest)
    | .word name => ofName name rest
    | .long name joined =>
      if name ≠ "help" && name ≠ "version" then throw .unknownArgument
      else if joined.isSome then throw .tooManyValues
      else throw (if name = "help" then .help else .version)
    | .short letter =>
      throw (if letter = 'h' then .help else if letter = 'V' then .version else .unknownArgument)
    | .dashes =>
      match rest with
      | [] => throw .missingCommand
      | word :: _ =>
        throw (if word = "help" || names.contains word then .unknownArgument
          else .invalidSubcommand)

end Command

end StyleTokens

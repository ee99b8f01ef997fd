/-
Configurations.

A configuration lists the tokens, the rule sets by name, the fragments of paths
to leave out, the glob of the files to look at and the compile gate.

* `Configuration.toJson`, `Configuration.parse` — the configuration as it is written;
* `Configuration.checked` — the table and the rule sets of a configuration, if
  every part of it is sound;
* `Setup` — a configuration that was checked.
-/
import StyleTokens.Exclusion
import StyleTokens.Json.Decode
import StyleTokens.Json.Reader
import StyleTokens.Rule

namespace StyleTokens

/-- The command that checks a project after a batch, and how long it may take. -/
structure GateSettings where
  command : Option String := none
  timeoutSeconds : Nat := 300
  deriving DecidableEq, Repr, Inhabited

/-- The only version of configurations there is. -/
def schemaVersion : String := "token-migrator-config-v1"

/-- The files to look at when a configuration does not say. -/
def defaultGlob : String := "**/*.\x7bvue,css,scss,less\x7d"

/-- A configuration as it is written down. -/
structure Configuration where
  schemaVersion : String := StyleTokens.schemaVersion
  entries : List TokenEntry
  /-- Rule sets by name, in order of their names. -/
  ruleSets : List (String × List RuleDraft)
  exclude : List String := []
  includeGlob : String := defaultGlob
  gate : GateSettings := {}
  deriving DecidableEq, Repr, Inhabited

open Json in
/-- A category by its exact name. -/
def Category.ofJson : Decoder Category :=
  asName Category.ofLabel?

/-- A table entry as it is written. -/
def TokenEntry.toJson (entry : TokenEntry) : Json :=
  .object [
    ("literal", .string entry.literal),
    ("category", .string entry.category.label),
    ("token", .string entry.token)]

open Json in
/-- A written table entry. -/
def TokenEntry.ofJson : Decoder TokenEntry := fun document => do
  let r ← asRecord ["literal", "category", "token"] document
  return {
    literal := ← r.required "literal" asString
    category := ← r.required "category" Category.ofJson
    token := ← r.required "token" asString }

/-- A rule as it is written. -/
def RuleDraft.toJson (draft : RuleDraft) : Json :=
  .object [
    ("id", .string draft.id),
    ("category", .string draft.category.label),
    ("pattern", .string draft.pattern),
    ("description", .string draft.description),
    ("split_values", .bool draft.splitValues)]

open Json in
/-- A written rule. -/
def RuleDraft.ofJson : Decoder RuleDraft := fun document => do
  let r ← asRecord ["id", "category", "pattern", "description", "split_values"] document
  return {
    id := ← r.required "id" asString
    category := ← r.required "category" Category.ofJson
    pattern := ← r.required "pattern" asString
    description := ← r.withDefault "description" "" asString
    splitValues := ← r.withDefault "split_values" false asBool }

/-- The settings of a gate as they are written. -/
def GateSettings.toJson (settings : GateSettings) : Json :=
  .object [
    ("command", .nullable .string settings.command),
    ("timeout_seconds", .ofNat settings.timeoutSeconds)]

open Json in
/-- Written settings of a gate. -/
def GateSettings.ofJson : Decoder GateSettings := fun document => do
  let r ← asRecord ["command", "timeout_seconds"] document
  return {
    command := ← r.withDefault "command" none (asOption asString)
    timeoutSeconds := ← r.withDefault "timeout_seconds" 300 asNat }

namespace Configuration

/-- The configuration as it is written, with all fields. -/
def toJson (configuration : Configuration) : Json :=
  .object [
    ("schema_version", .string configuration.schemaVersion),
    ("mappings", .array (configuration.entries.map TokenEntry.toJson)),
    ("rule_sets", .object (configuration.ruleSets.map fun (name, drafts) =>
      (name, .array (drafts.map RuleDraft.toJson)))),
    ("exclude", .strings configuration.exclude),
    ("include_glob", .string configuration.includeGlob),
    ("gate", configuration.gate.toJson)]

open Json in
/-- A written configuration. -/
def ofJson : Decoder Configuration := fun document => do
  let names := ["schema_version", "mappings", "rule_sets", "exclude", "include_glob", "gate"]
  let r ← asRecord names document
  return {
    schemaVersion := ← r.withDefault "schema_version" StyleTokens.schemaVersion asString
    entries := ← r.required "mappings" (asList TokenEntry.ofJson)
    ruleSets := ← r.required "rule_sets" (asMap (asList RuleDraft.ofJson))
    exclude := ← r.withDefault "exclude" [] (asList asString)
    includeGlob := ← r.withDefault "include_glob" defaultGlob asString
    gate := ← r.withDefault "gate" {} GateSettings.ofJson }

/-- The configuration that a JSON text describes. -/
def parse (text : String) : Except Fault Configuration :=
  (Json.read text >>= ofJson).mapError .json

end Configuration

/-- A checked configuration with its table and its rule sets. -/
structure Setup where
  configuration : Configuration
  table : TokenTable
  /-- In order of their names. -/
  ruleSets : List RuleSet
  deriving Repr

/-- The setup of a configuration; its first unsound part spoils it all. -/
def Configuration.checked (configuration : Configuration) : Except Fault Setup := do
  if configuration.schemaVersion ≠ StyleTokens.schemaVersion then
    throw (.invalidArgument (.schemaVersion configuration.schemaVersion StyleTokens.schemaVersion))
  if configuration.ruleSets.isEmpty then throw (.invalidArgument .noRuleSets)
  if configuration.gate.timeoutSeconds = 0 then throw (.invalidArgument .zeroTimeout)
  let table ← TokenTable.ofEntries configuration.entries
  let ruleSets ← configuration.ruleSets.mapM fun (name, drafts) =>
    RuleSet.ofDrafts name drafts table
  return ⟨configuration, table, ruleSets⟩

namespace Setup

/-- The rule set of a name. -/
def ruleSet (setup : Setup) (name : String) : Except Fault RuleSet :=
  match setup.ruleSets.find? (·.name == name) with
  | some found => return found
  | none => throw (.unknownRuleSet name)

/-- The files to leave out: the configured ones and some more. -/
def exclusion (setup : Setup) (extra : List String) : Exclusion :=
  .ofFragments (setup.configuration.exclude ++ extra)

end Setup

end StyleTokens

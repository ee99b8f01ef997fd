/-
The command that lists the rules.

* `Setup.listing` — the rule sets with their rules, the number of tokens of each
  category and the fragments that are left out, as text;
* `listRules` — the command.
-/
import StyleTokens.Command.Basic
import StyleTokens.Console

namespace StyleTokens

/-- A text with blanks behind it, up to a width. -/
def padded (width : Nat) (text : String) : String :=
  text ++ String.ofList (List.replicate (width - text.length) ' ')

namespace Setup

/-- The listing as text. -/
def listing (setup : Setup) : String :=
  let ruleLine := fun (rule : Rule) =>
    "  " ++ padded 16 rule.id ++ " [" ++ rule.category.label ++ "] " ++ rule.description ++ "\n"
  let sets := setup.ruleSets.map fun set =>
    set.name ++ "\n" ++ String.join (set.rules.map ruleLine)
  let counts := setup.table.counts.map fun (category, count) =>
    "  " ++ padded 16 category.label ++ " " ++ toString count ++ "\n"
  let exclude := setup.configuration.exclude
  String.join sets ++ "mappings\n" ++ String.join counts ++
    if exclude.isEmpty then "" else "exclude: " ++ ", ".intercalate exclude ++ "\n"

/-- The listing for programs. -/
def members (setup : Setup) : List (String × Json) :=
  let ruleJson := fun (rule : Rule) => Json.object [
    ("id", .string rule.id),
    ("category", .string rule.category.label),
    ("description", .string rule.description)]
  [ ("command", .string "list-rules"),
    ("rule_sets", .array (setup.ruleSets.map fun set =>
      .object [("name", .string set.name), ("rules", .array (set.rules.map ruleJson))])),
    ("mapping_counts",
      .object (setup.table.counts.map fun (category, count) => (category.label, .ofNat count))),
    ("exclude", .strings setup.configuration.exclude)]

end Setup

/-- The command. -/
def listRules (config : Option Path) : Action Unit := do
  let console ← (Console.detect : Script _)
  let setup ← Setup.load config
  if console.json then console.summary setup.members
  else Script.say .out setup.listing

end StyleTokens

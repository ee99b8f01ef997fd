/-
Rules and rule sets.

A rule says where in a text literals of a category stand.  Its pattern must have
a group named `value` for the literal and must not match the empty text.

* `RuleDraft` — a rule as it is written down;
* `Rule.ofDraft` — the rule of a draft, or what is wrong with it;
* `RuleSet` — rules that are tried in order, with ids of their own, and the
  table that they share.

Design notes: a rule carries the program of its pattern next to the pattern, so
that the pattern is unfolded once however many texts are searched.
-/
import StyleTokens.Pattern.Parser
import StyleTokens.Pattern.Search
import StyleTokens.TokenTable

namespace StyleTokens

/-- A rule as it is written down. -/
structure RuleDraft where
  id : String
  category : Category
  /-- The notation of the pattern. -/
  pattern : String
  description : String := ""
  /-- Whether the value is a list, separated by white space, of literals. -/
  splitValues : Bool := false
  deriving DecidableEq, Repr, Inhabited

/-- The name of the group that a literal is taken from. -/
def valueGroup : String := "value"

/-- A rule ready for use. -/
structure Rule where
  id : String
  category : Category
  description : String
  splitValues : Bool
  /-- The notation of the pattern. -/
  source : String
  pattern : Pattern
  program : Program := pattern.program
  program_eq : program = pattern.program := by rfl
  deriving Repr

namespace Rule

/-- The rule that a draft describes. -/
def ofDraft (draft : RuleDraft) : Except Fault Rule := do
  let id := Text.trimmed draft.id
  if id.isEmpty then throw (.pattern "<unnamed>" .noId)
  match Pattern.parse draft.pattern with
  | .error flaw => throw (.pattern id (.unreadable flaw))
  | .ok pattern =>
    if !pattern.names.contains valueGroup then throw (.pattern id .noValueGroup)
    if pattern.program.occursIn [] then throw (.pattern id .matchesEmptyText)
    return {
      id, category := draft.category, description := draft.description
      splitValues := draft.splitValues, source := draft.pattern, pattern }

end Rule

/-- Rules in the order in which they are tried, and the table they use. -/
structure RuleSet where
  name : String
  rules : List Rule
  table : TokenTable
  rules_ne_nil : rules ≠ []
  distinct : (rules.map (·.id)).Nodup
  deriving Repr

namespace RuleSet

/-- The first name that stands earlier in the list already. -/
def firstRepeated? : (earlier names : List String) → Option String
  | _, [] => none
  | earlier, name :: names =>
    if name ∈ earlier then some name else firstRepeated? (name :: earlier) names

theorem nodup_of_firstRepeated?_eq_none {earlier names : List String}
    (h : firstRepeated? earlier names = none) :
    names.Nodup ∧ ∀ name ∈ names, name ∉ earlier := by
  induction names generalizing earlier with
  | nil => simp
  | cons name names ih =>
    rw [firstRepeated?] at h
    split at h
    · simp at h
    · next fresh =>
      have ⟨hn, he⟩ := ih h
      refine ⟨List.nodup_cons.2 ⟨fun hm => ?_, hn⟩, fun other hm => ?_⟩
      · exact he name hm (by simp)
      · rcases List.mem_cons.1 hm with rfl | hm
        · exact fresh
        · exact fun ho => he other hm (by simp [ho])

/-- The rule set of these rules. -/
def ofRules (name : String) (rules : List Rule) (table : TokenTable) : Except Fault RuleSet :=
  if some_rule : rules = [] then
    throw (.invalidArgument (.noRules name))
  else
    match h : firstRepeated? [] (rules.map (·.id)) with
    | some id => throw (.pattern id (.repeatedId name))
    | none =>
      return ⟨name, rules, table, some_rule, (nodup_of_firstRepeated?_eq_none h).1⟩

/-- The rule set of these drafts; the first one that is no rule spoils it. -/
def ofDrafts (name : String) (drafts : List RuleDraft) (table : TokenTable) :
    Except Fault RuleSet := do
  ofRules name (← drafts.mapM Rule.ofDraft) table

end RuleSet

end StyleTokens

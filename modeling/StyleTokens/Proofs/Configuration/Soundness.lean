/-
Which configurations are sound, and what they set up.

A configuration is looked at by four checks in three modules: the configuration itself, the
table of its tokens, each of its rule sets and each rule.  Together they accept what is said
here, part by part, and nothing else.

* `RuleDraft.IsSound`, `RuleSet.AreDrafts`, `Configuration.IsSound` — what is accepted;
* `Rule.ofDraft_eq_ok_iff`, `RuleSet.ofDrafts_holds_iff` — the checks of a rule and of a rule set;
* `Configuration.checked_eq_ok_iff` — the checks of a configuration;
* `Setup.Serves` — a setup that offers just what a configuration says;
* `Configuration.checked_exact` — a configuration is accepted if it is sound, and serves then.

Design notes: ids are compared as they are found, without the blanks around them, so the names
of two drafts can differ and their ids still be one.  Which patterns can be read, and whether
one occurs in the empty text, is up to the search.
-/
import Mathlib.Data.List.TakeWhile
import StyleTokens.Proofs.Catalog.Entries
import StyleTokens.Proofs.Command.Relisting
import StyleTokens.Proofs.Revision.Turns

namespace StyleTokens

/-! ### Rules -/

/-- A draft that is a rule: its id is not blank, and its pattern can be read, has a group for
the value and does not match the empty text. -/
structure RuleDraft.IsSound (draft : RuleDraft) : Prop where
  named : Text.allBlank draft.id.toList = false
  finds : ∃ pattern, Pattern.parse draft.pattern = .ok pattern ∧ valueGroup ∈ pattern.names ∧
    pattern.program.occursIn [] = false

/-- A rule that is what a draft says. -/
structure Rule.Renders (rule : Rule) (draft : RuleDraft) : Prop where
  id_eq : rule.id = Text.trimmed draft.id
  category_eq : rule.category = draft.category
  description_eq : rule.description = draft.description
  splitValues_eq : rule.splitValues = draft.splitValues
  source_eq : rule.source = draft.pattern
  parse_eq : Pattern.parse draft.pattern = .ok rule.pattern

/-- Nothing is left of a text without the blanks around it if it is blank throughout. -/
theorem Text.isEmpty_trimmed (text : String) :
    (trimmed text).isEmpty = allBlank text.toList := by
  have hright : ∀ l : List Char, trimRight l = [] ↔ ∀ c ∈ l, isBlank c = true := by
    intro l
    rw [trimRight, List.reverse_eq_nil_iff, List.dropWhile_eq_nil_iff]
    simp only [List.mem_reverse]
  have hleft : (∀ c ∈ trimLeft text.toList, isBlank c = true) ↔
      ∀ c ∈ text.toList, isBlank c = true := by
    -- The first sign that is left, if there is one, is not blank.
    refine ⟨fun h => ?_, fun h c hc => h c ((List.dropWhile_sublist _).subset hc)⟩
    rw [← List.dropWhile_eq_nil_iff]
    by_contra hne
    have hhead := List.head_dropWhile_not isBlank hne
    rw [h _ (List.head_mem hne)] at hhead
    cases hhead
  rw [Bool.eq_iff_iff, allBlank, List.all_eq_true, ← hleft, ← hright, trimmed, trim]
  simp

namespace Rule

variable {draft : RuleDraft} {rule : Rule}

/-- Rules are the same if they have the same data; the program is that of the pattern. -/
theorem Renders.unique {other : Rule} (h : rule.Renders draft) (h' : other.Renders draft) :
    rule = other := by
  obtain ⟨id, category, description, splitValues, source, pattern, program, hprogram⟩ := rule
  obtain ⟨id', category', description', splitValues', source', pattern', program', hprogram'⟩ :=
    other
  obtain ⟨rfl, rfl, rfl, rfl, rfl, hpattern⟩ := h
  obtain ⟨rfl, rfl, rfl, rfl, rfl, hpattern'⟩ := h'
  obtain rfl : pattern = pattern' := Except.ok.inj (hpattern.symm.trans hpattern')
  subst hprogram
  subst hprogram'
  rfl

/-- **A draft makes a rule if it is sound**, and this rule is what the draft says. -/
theorem ofDraft_eq_ok_iff : ofDraft draft = .ok rule ↔ draft.IsSound ∧ rule.Renders draft := by
  have hmade : ∀ pattern, Pattern.parse draft.pattern = .ok pattern →
      Text.allBlank draft.id.toList = false → valueGroup ∈ pattern.names →
      pattern.program.occursIn [] = false → ofDraft draft = .ok
        { id := Text.trimmed draft.id, category := draft.category
          description := draft.description, splitValues := draft.splitValues
          source := draft.pattern, pattern } := by
    intro pattern hparse hid hvalue hempty
    simp only [ofDraft, Text.isEmpty_trimmed, hid, hparse, hempty, hvalue,
      List.contains_eq_mem, decide_true]
    rfl
  constructor
  · intro h
    have hsound : draft.IsSound := by
      unfold ofDraft at h
      dsimp only at h
      split at h
      · cases h
      next hid =>
      split at h
      · cases h
      next pattern hparse =>
      split at h
      · cases h
      next hvalue =>
      split at h
      · cases h
      next hempty =>
      rw [Text.isEmpty_trimmed, Bool.not_eq_true] at hid
      exact ⟨hid, pattern, hparse, by simpa using hvalue, Bool.eq_false_iff.2 hempty⟩
    obtain ⟨hid, pattern, hparse, hvalue, hempty⟩ := hsound
    rw [hmade pattern hparse hid hvalue hempty] at h
    cases h
    exact ⟨⟨hid, pattern, hparse, hvalue, hempty⟩, rfl, rfl, rfl, rfl, rfl, hparse⟩
  · rintro ⟨⟨hid, pattern, hparse, hvalue, hempty⟩, hrenders⟩
    rw [hmade pattern hparse hid hvalue hempty]
    exact congrArg Except.ok (Renders.unique ⟨rfl, rfl, rfl, rfl, rfl, hparse⟩ hrenders)

theorem exists_ofDraft_iff : (∃ rule, ofDraft draft = .ok rule) ↔ draft.IsSound := by
  refine ⟨fun ⟨rule, h⟩ => (ofDraft_eq_ok_iff.1 h).1, fun h => ?_⟩
  obtain ⟨pattern, hparse, -⟩ := h.finds
  exact ⟨{ id := Text.trimmed draft.id, category := draft.category
           description := draft.description, splitValues := draft.splitValues
           source := draft.pattern, pattern },
    ofDraft_eq_ok_iff.2 ⟨h, rfl, rfl, rfl, rfl, rfl, hparse⟩⟩

end Rule

instance {draft : RuleDraft} : Decidable draft.IsSound :=
  decidable_of_iff ((Rule.ofDraft draft).toOption.isSome = true) <| by
    rw [← Rule.exists_ofDraft_iff]
    cases Rule.ofDraft draft <;> simp [Except.toOption]

/-! ### Rule sets -/

/-- Values are gone through to the end if each of them leads to something. -/
theorem exists_mapM_iff {α β ε : Type} {f : α → Except ε β} {values : List α} :
    (∃ results, values.mapM f = .ok results) ↔ ∀ value ∈ values, ∃ result, f value = .ok result := by
  constructor
  · rintro ⟨results, h⟩ value hm
    obtain ⟨result, -, hresult⟩ := exists_result_of_mapM h hm
    exact ⟨result, hresult⟩
  · intro h
    cases hall : values.mapM f with
    | ok results => exact ⟨results, rfl⟩
    | error fault =>
      obtain ⟨value, hm, hvalue⟩ := exists_error_of_mapM hall
      obtain ⟨result, hresult⟩ := h value hm
      rw [hvalue] at hresult
      cases hresult

namespace RuleSet

variable {name : String} {drafts : List RuleDraft} {table : TokenTable} {set : RuleSet}

/-- Drafts that a rule set can be made of: there is one, all of them are sound, and no two
have one id when the blanks around it are taken away. -/
structure AreDrafts (drafts : List RuleDraft) : Prop where
  ne_nil : drafts ≠ []
  sound : ∀ draft ∈ drafts, draft.IsSound
  distinct : (drafts.map (Text.trimmed ·.id)).Nodup

theorem areDrafts_iff : AreDrafts drafts ↔ drafts ≠ [] ∧ (∀ draft ∈ drafts, draft.IsSound) ∧
    (drafts.map (Text.trimmed ·.id)).Nodup := by
  constructor
  · rintro ⟨hne, hsound, hdistinct⟩
    exact ⟨hne, hsound, hdistinct⟩
  · rintro ⟨hne, hsound, hdistinct⟩
    exact ⟨hne, hsound, hdistinct⟩

instance : Decidable (AreDrafts drafts) :=
  decidable_of_iff _ areDrafts_iff.symm

/-- A rule set that has the rules of drafts, in their order, and a table. -/
structure Holds (set : RuleSet) (name : String) (drafts : List RuleDraft) (table : TokenTable) :
    Prop where
  name_eq : set.name = name
  renders : List.Forall₂ Rule.Renders set.rules drafts
  table_eq : set.table = table

/-- Rules that follow drafts have their ids. -/
theorem map_id_of_renders {rules : List Rule} (h : List.Forall₂ Rule.Renders rules drafts) :
    rules.map (·.id) = drafts.map (Text.trimmed ·.id) := by
  induction h with
  | nil => rfl
  | cons hfirst _ ih => rw [List.map_cons, List.map_cons, hfirst.id_eq, ih]

/-- The rules of drafts are gone through if the drafts are sound. -/
theorem mapM_ofDraft_iff {rules : List Rule} : drafts.mapM Rule.ofDraft = .ok rules ↔
    (∀ draft ∈ drafts, draft.IsSound) ∧ List.Forall₂ Rule.Renders rules drafts := by
  rw [mapM_eq_ok_iff]
  simp only [Rule.ofDraft_eq_ok_iff]
  constructor
  · intro h
    induction h with
    | nil => exact ⟨by simp, .nil⟩
    | cons hfirst _ ih => exact ⟨List.forall_mem_cons.2 ⟨hfirst.1, ih.1⟩, .cons hfirst.2 ih.2⟩
  · rintro ⟨hsound, hrenders⟩
    induction hrenders with
    | nil => exact .nil
    | cons hfirst _ ih =>
      obtain ⟨hdraft, hdrafts⟩ := List.forall_mem_cons.1 hsound
      exact .cons ⟨hdraft, hfirst⟩ (ih hdrafts)

/-- **Drafts make a rule set if they are sound and have ids of their own**, and this rule set
holds their rules in order. -/
theorem ofDrafts_holds_iff : ofDrafts name drafts table = .ok set ↔
    AreDrafts drafts ∧ set.Holds name drafts table := by
  rw [ofDrafts_eq_ok_iff, mapM_ofDraft_iff]
  constructor
  · rintro ⟨⟨hsound, hrenders⟩, hname, htable⟩
    refine ⟨⟨?_, hsound, map_id_of_renders hrenders ▸ set.distinct⟩, hname, hrenders, htable⟩
    rintro rfl
    exact set.rules_ne_nil (List.forall₂_nil_right_iff.1 hrenders)
  · rintro ⟨hdrafts, hname, hrenders, htable⟩
    exact ⟨⟨hdrafts.sound, hrenders⟩, hname, htable⟩

theorem exists_ofDrafts_iff (name : String) (table : TokenTable) :
    (∃ set, ofDrafts name drafts table = .ok set) ↔ AreDrafts drafts := by
  refine ⟨fun ⟨set, h⟩ => (ofDrafts_holds_iff.1 h).1, fun h => ?_⟩
  obtain ⟨rules, hrules⟩ := exists_mapM_iff.2 fun draft hd =>
    Rule.exists_ofDraft_iff.2 (h.sound draft hd)
  have hrenders := (mapM_ofDraft_iff.1 hrules).2
  have hne : rules ≠ [] := by
    rintro rfl
    exact h.ne_nil (List.forall₂_nil_left_iff.1 hrenders)
  have hdistinct : (rules.map (·.id)).Nodup := map_id_of_renders hrenders ▸ h.distinct
  exact ⟨⟨name, rules, table, hne, hdistinct⟩, ofDrafts_holds_iff.2 ⟨h, rfl, hrenders, rfl⟩⟩

end RuleSet

/-! ### Configurations -/

/-- A configuration all parts of which are sound. -/
structure Configuration.IsSound (configuration : Configuration) : Prop where
  version : configuration.schemaVersion = StyleTokens.schemaVersion
  ruleSets_ne_nil : configuration.ruleSets ≠ []
  timeout_pos : 0 < configuration.gate.timeoutSeconds
  entries : TokenTable.AreEntries configuration.entries
  drafts : ∀ named ∈ configuration.ruleSets, RuleSet.AreDrafts named.2

theorem Configuration.isSound_iff {configuration : Configuration} : configuration.IsSound ↔
    configuration.schemaVersion = StyleTokens.schemaVersion ∧ configuration.ruleSets ≠ [] ∧
      0 < configuration.gate.timeoutSeconds ∧ TokenTable.AreEntries configuration.entries ∧
      ∀ named ∈ configuration.ruleSets, RuleSet.AreDrafts named.2 := by
  constructor
  · rintro ⟨hversion, hsome, htimeout, hentries, hdrafts⟩
    exact ⟨hversion, hsome, htimeout, hentries, hdrafts⟩
  · rintro ⟨hversion, hsome, htimeout, hentries, hdrafts⟩
    exact ⟨hversion, hsome, htimeout, hentries, hdrafts⟩

instance {configuration : Configuration} : Decidable configuration.IsSound :=
  decidable_of_iff _ Configuration.isSound_iff.symm

/-- A setup that offers what a configuration says: its table, and under each of its names, and
under no other one, a rule set with the rules of that name and this one table. -/
structure Setup.Serves (setup : Setup) (configuration : Configuration) : Prop where
  configuration_eq : setup.configuration = configuration
  table : setup.table.Holds configuration.entries
  names_eq : setup.ruleSets.map (·.name) = configuration.ruleSets.map Prod.fst
  /-- A rule set is found under the names of the configuration. -/
  found_iff : ∀ name, (∃ set, setup.ruleSet name = .ok set) ↔
    name ∈ configuration.ruleSets.map Prod.fst
  /-- Under any other name it is missing. -/
  missing_iff : ∀ name, setup.ruleSet name = .error (.unknownRuleSet name) ↔
    name ∉ configuration.ruleSets.map Prod.fst
  /-- What is found has the rules that stand under the name. -/
  holds : ∀ name set, setup.ruleSet name = .ok set →
    ∃ drafts, configuration.ruleSets.lookup name = some drafts ∧
      set.Holds name drafts setup.table

namespace Configuration

variable {configuration : Configuration} {setup : Setup}

/-- A configuration is accepted if it is sound, and the setup has its table and its rule
sets one by one. -/
theorem checked_eq_ok_iff : configuration.checked = .ok setup ↔
    configuration.IsSound ∧ setup.configuration = configuration ∧
      TokenTable.ofEntries configuration.entries = .ok setup.table ∧
      List.Forall₂ (fun named set => RuleSet.Holds set named.1 named.2 setup.table)
        configuration.ruleSets setup.ruleSets := by
  have hsets : ∀ table sets, (configuration.ruleSets.mapM fun named =>
        RuleSet.ofDrafts named.1 named.2 table) = .ok sets ↔
      (∀ named ∈ configuration.ruleSets, RuleSet.AreDrafts named.2) ∧
        List.Forall₂ (fun named set => RuleSet.Holds set named.1 named.2 table)
          configuration.ruleSets sets := by
    intro table sets
    rw [mapM_eq_ok_iff]
    simp only [RuleSet.ofDrafts_holds_iff]
    exact List.forall₂_and_left _ _
  constructor
  · intro h
    obtain ⟨hversion, hsome, htimeout, hself, htable, hmade⟩ := checked_cases h
    obtain ⟨hdrafts, hholds⟩ := (hsets setup.table setup.ruleSets).1 hmade
    refine ⟨⟨hversion, hsome, htimeout, ?_, hdrafts⟩, hself, htable, hholds⟩
    exact TokenTable.exists_ofEntries_iff.1 ⟨setup.table, htable⟩
  · rintro ⟨hsound, hself, htable, hholds⟩
    have hmade := (hsets setup.table setup.ruleSets).2 ⟨hsound.drafts, hholds⟩
    have hsome : configuration.ruleSets.isEmpty = false := by simpa using hsound.ruleSets_ne_nil
    unfold checked
    simp only [hsound.version, hsome, hsound.timeout_pos.ne', htable, bind, Except.bind]
    rw [hmade]
    exact congrArg Except.ok (by rw [← hself])

/-- The rule sets of a setup have the names of the configuration. -/
theorem map_name_of_holds {named : List (String × List RuleDraft)} {sets : List RuleSet}
    {table : TokenTable} (h : List.Forall₂ (fun named set => RuleSet.Holds set named.1 named.2 table)
      named sets) : sets.map (·.name) = named.map Prod.fst := by
  induction h with
  | nil => rfl
  | cons hfirst _ ih => rw [List.map_cons, List.map_cons, hfirst.name_eq, ih]

/-- The first rule set of a name has the rules that stand under the name first. -/
theorem lookup_of_find? {named : List (String × List RuleDraft)} {sets : List RuleSet}
    {table : TokenTable} (h : List.Forall₂ (fun named set => RuleSet.Holds set named.1 named.2 table)
      named sets) {name : String} {set : RuleSet} (hfind : sets.find? (·.name == name) = some set) :
    ∃ drafts, named.lookup name = some drafts ∧ set.Holds name drafts table := by
  induction h with
  | nil => cases hfind
  | @cons first other named sets hfirst _ ih =>
    rw [List.find?_cons] at hfind
    rw [List.lookup_cons]
    cases hname : other.name == name with
    | true =>
      rw [hname] at hfind
      obtain rfl : other = set := Option.some.inj hfind
      have hname := beq_iff_eq.1 hname
      rw [hfirst.name_eq] at hname
      subst hname
      exact ⟨first.2, by simp, hfirst⟩
    | false =>
      rw [hname] at hfind
      rw [hfirst.name_eq] at hname
      rw [beq_eq_false_iff_ne.2 (beq_eq_false_iff_ne.1 hname).symm]
      exact ih hfind

theorem serves_of_checked (h : configuration.checked = .ok setup) :
    setup.Serves configuration := by
  obtain ⟨-, hself, htable, hholds⟩ := checked_eq_ok_iff.1 h
  have hnames := map_name_of_holds hholds
  have hfound : ∀ name, (∃ set, setup.ruleSet name = .ok set) ↔
      name ∈ configuration.ruleSets.map Prod.fst := by
    intro name
    rw [← hnames, Setup.ruleSet]
    cases hfind : setup.ruleSets.find? (·.name == name) with
    | some set =>
      have hname : set.name = name := by simpa using List.find?_some hfind
      exact ⟨fun _ => List.mem_map.2 ⟨set, List.mem_of_find?_eq_some hfind, hname⟩,
        fun _ => ⟨set, rfl⟩⟩
    | none =>
      refine ⟨fun ⟨set, hset⟩ => (nomatch hset), fun hm => ?_⟩
      obtain ⟨set, hset, hname⟩ := List.mem_map.1 hm
      exact absurd hname (by simpa using List.find?_eq_none.1 hfind set hset)
  refine ⟨hself, TokenTable.holds_of_ofEntries htable, hnames, hfound, fun name => ?_,
    fun name set hset => ?_⟩
  · rw [← hfound name, Setup.ruleSet]
    cases setup.ruleSets.find? (·.name == name) with
    | some set => exact ⟨fun h => (nomatch h), fun h => absurd ⟨set, rfl⟩ h⟩
    | none => exact ⟨fun _ ⟨set, hset⟩ => (nomatch hset), fun _ => rfl⟩
  · rw [Setup.ruleSet] at hset
    cases hfind : setup.ruleSets.find? (·.name == name) with
    | none =>
      rw [hfind] at hset
      cases hset
    | some found =>
      rw [hfind] at hset
      obtain rfl : found = set := Except.ok.inj hset
      exact lookup_of_find? hholds hfind

theorem exists_checked_iff : (∃ setup, configuration.checked = .ok setup) ↔
    configuration.IsSound := by
  refine ⟨fun ⟨setup, h⟩ => (checked_eq_ok_iff.1 h).1, fun h => ?_⟩
  obtain ⟨table, htable⟩ := TokenTable.exists_ofEntries_iff.2 h.entries
  obtain ⟨sets, hsets⟩ := exists_mapM_iff.2 fun named hn =>
    (RuleSet.exists_ofDrafts_iff named.1 table).2 (h.drafts named hn)
  have hholds := (mapM_eq_ok_iff.1 hsets).imp fun named set hset =>
    (RuleSet.ofDrafts_holds_iff.1 hset).2
  exact ⟨⟨configuration, table, sets⟩, checked_eq_ok_iff.2 ⟨h, rfl, htable, hholds⟩⟩

/-- **A configuration is accepted if it is sound, and serves then.**  It is accepted just if
its version is the supported one, it has a rule set, its gate has time, its entries make a
table, and every rule set has rules, each with an id that is not blank, that no other rule of
the set has when the blanks around it are taken away, and with a pattern that can be read, has
a group for the value and does not match the empty text.  A rule set is found then under each
configured name and no other, with the rules of that name in order and the one table.  A single
rule that is broken, in whichever set, leaves nothing to be found under any name. -/
theorem checked_exact (configuration : Configuration) :
    ((∃ setup, configuration.checked = .ok setup) ↔ configuration.IsSound) ∧
    (∀ setup, configuration.checked = .ok setup → setup.Serves configuration) ∧
    ∀ named ∈ configuration.ruleSets, ∀ draft ∈ named.2, ¬ draft.IsSound →
      ∃ fault, configuration.checked = .error fault ∧
        ∀ asked, (configuration.checked >>= (·.ruleSet asked)) = .error fault := by
  refine ⟨exists_checked_iff, fun setup => serves_of_checked, fun named hn draft hd hbroken => ?_⟩
  cases h : configuration.checked with
  | ok setup =>
    exact absurd (((checked_eq_ok_iff.1 h).1.drafts named hn).sound draft hd) hbroken
  | error fault => exact ⟨fault, rfl, fun asked => rfl⟩

end Configuration

namespace Sample

/-- A configuration with two rule sets; blanks stand around one of the ids. -/
def twoSets : Configuration where
  entries := [⟨"4px", .spacing, "var(--gap)"⟩]
  ruleSets := [
    ("gaps", [
      ⟨" gap ", .spacing, "gap: (?P<value>[0-9]+px)", "", false⟩,
      ⟨"inset", .spacing, "inset: (?P<value>[^;]+)", "", true⟩]),
    ("widths", [⟨"width", .size, "width: (?P<value>[0-9]+px)", "", false⟩])]

/-- Two drafts whose ids are one without the blanks around them. -/
def clashing : List RuleDraft := [
  ⟨" gap ", .spacing, "gap: (?P<value>[0-9]+px)", "", false⟩,
  ⟨"gap\t", .spacing, "inset: (?P<value>[^;]+)", "", true⟩]

/-- A draft whose pattern matches the empty text. -/
def anyNumber : RuleDraft :=
  ⟨"number", .size, "(?P<value>[0-9]*)", "", false⟩

/-- The two rule sets are served, with the ids of the one in order.  With ids that clash a
configuration is refused, and with a pattern that matches the empty text not even the rule
sets beside it are found. -/
theorem twoSets_served : (∃ setup, twoSets.checked = .ok setup ∧ setup.Serves twoSets ∧
      ∃ set, setup.ruleSet "gaps" = .ok set ∧ set.rules.map (·.id) = ["gap", "inset"]) ∧
    (¬ ∃ setup, { twoSets with ruleSets := [("gaps", clashing)] }.checked = .ok setup) ∧
    ∃ fault, ({ twoSets with ruleSets := ("any", [anyNumber]) :: twoSets.ruleSets }.checked >>=
      (·.ruleSet "widths")) = .error fault := by
  obtain ⟨haccepted, hserves, -⟩ := Configuration.checked_exact twoSets
  obtain ⟨setup, hsetup⟩ := haccepted.2 (by decide +kernel)
  have hserved := hserves setup hsetup
  obtain ⟨set, hset⟩ := (hserved.found_iff "gaps").2 (by decide)
  obtain ⟨drafts, hdrafts, hholds⟩ := hserved.holds _ _ hset
  obtain rfl : _ = drafts := Option.some.inj hdrafts
  refine ⟨⟨setup, hsetup, hserved, set, hset, ?_⟩, ?_, ?_⟩
  · rw [RuleSet.map_id_of_renders hholds.renders]
    decide
  · rw [(Configuration.checked_exact _).1]
    decide +kernel
  · obtain ⟨fault, -, hfault⟩ := (Configuration.checked_exact
        { twoSets with ruleSets := ("any", [anyNumber]) :: twoSets.ruleSets }).2.2
      _ List.mem_cons_self anyNumber List.mem_cons_self (by decide +kernel)
    exact ⟨fault, hfault "widths"⟩

end Sample

end StyleTokens

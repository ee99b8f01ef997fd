/-
What revising by a built-in rule set does.

* `exists_ruleSet` — the rule set of drafts that are written down for properties;
* `exists_orderly_of_writes` — rule sets that are written down for properties are orderly;
  `exists_orderly_of_lengths`, `exists_orderly_of_colors` — so are the built-in ones;
* `exists_checked` — the built-in configuration is sound;
* `comments_survive` — comments survive a revision by a built-in rule set;
* `spacings_stay_within` — the turns of its rules stay within their texts;
* `revise_revise` — a second revision changes nothing.
-/
import StyleTokens.Proofs.Builtin.Properties
import StyleTokens.Proofs.Revision.Idempotence
import StyleTokens.Proofs.Revision.Turns

namespace StyleTokens

open Text Pattern

namespace Builtin

/-- The rule of a draft that is written down for a property. -/
theorem Writes.exists_rule {draft : RuleDraft} {p : Property} (h : Writes draft p) :
    ∃ rule, Rule.ofDraft draft = .ok rule ∧ rule.id = Text.trimmed draft.id ∧
      rule.pattern = p.pattern ∧ rule.splitValues = draft.splitValues := by
  have hsound := h.sound
  simp only [Property.sound, Bool.and_eq_true, Bool.not_eq_true'] at hsound
  have hempty : p.pattern.program.occursIn [] = false :=
    (program_regular hsound.1.2).occursIn_nil (by rw [program_matchesNothing, hsound.2])
  have hrule : Rule.ofDraft draft = .ok
      { id := Text.trimmed draft.id, category := draft.category, description := draft.description
        splitValues := draft.splitValues, source := draft.pattern, pattern := p.pattern } := by
    simp only [Rule.ofDraft, h.parse_eq, h.id, h.value, hempty]
    rfl
  exact ⟨_, hrule, rfl, rfl, rfl⟩

/-- The rules of drafts that are written down for properties. -/
theorem exists_rules {drafts : List RuleDraft} {props : List Property}
    (h : List.Forall₂ Writes drafts props) : ∃ rules, drafts.mapM Rule.ofDraft = .ok rules ∧
      rules.map (·.id) = drafts.map (Text.trimmed ·.id) ∧
      rules.map (·.pattern) = props.map (·.pattern) ∧
      rules.map (·.splitValues) = drafts.map (·.splitValues) := by
  induction h with
  | nil => exact ⟨[], rfl, rfl, rfl, rfl⟩
  | cons hfirst _ ih =>
    obtain ⟨rule, h1, h2, h3, h4⟩ := hfirst.exists_rule
    obtain ⟨rules, h5, h6, h7, h8⟩ := ih
    refine ⟨rule :: rules, ?_, by simp [h2, h6], by simp [h3, h7], by simp [h4, h8]⟩
    rw [List.mapM_cons, h1, h5]
    rfl

/-- The rule set of drafts that are written down for properties. -/
theorem exists_ruleSet {drafts : List RuleDraft} {props : List Property} (name : String)
    (table : TokenTable) (h : List.Forall₂ Writes drafts props) (hne : drafts ≠ [])
    (hids : RuleSet.firstRepeated? [] (drafts.map (Text.trimmed ·.id)) = none) :
    ∃ set, RuleSet.ofDrafts name drafts table = .ok set ∧ set.name = name ∧ set.table = table ∧
      set.rules.map (·.pattern) = props.map (·.pattern) ∧
      set.rules.map (·.splitValues) = drafts.map (·.splitValues) := by
  obtain ⟨rules, h1, h2, h3, h4⟩ := exists_rules h
  have hrules : rules ≠ [] := by
    rintro rfl
    exact hne (by simpa using h2.symm)
  have hset : ∃ set, RuleSet.ofRules name rules table = .ok set ∧ set.name = name ∧
      set.table = table ∧ set.rules = rules := by
    rw [RuleSet.ofRules, dif_neg hrules]
    split
    · next id hid =>
      rw [h2, hids] at hid
      simp at hid
    · exact ⟨_, rfl, rfl, rfl, rfl⟩
  obtain ⟨set, h5, h6, h7, rfl⟩ := hset
  refine ⟨set, ?_, h6, h7, h3, h4⟩
  rw [RuleSet.ofDrafts, h1]
  exact h5

/-! ### The rule sets are orderly -/

/-- The property that a rule looks for. -/
def propertyAt (props : List Property) (i : Nat) : Property :=
  props.getD i ⟨[], [], .empty⟩

theorem name_mem {draft : RuleDraft} {p : Property} (h : Writes draft p) {n : List Char}
    (hn : WordsSeq p.name n) : n ∈ namesOf p := by
  obtain ⟨words, hw⟩ := Option.isSome_iff_exists.1 h.listed
  rw [namesOf, hw, Option.getD_some]
  exact mem_of_words? hw n ((words_seqOf _ _).2 hn)

theorem areNames {draft : RuleDraft} {p : Property} (h : Writes draft p) :
    AreNames (· ∈ namesOf p) := by
  intro n hn
  have := List.all_eq_true.1 h.named n hn
  rw [isName, Bool.and_eq_true, List.all_eq_true] at this
  refine ⟨?_, this.2⟩
  cases n with
  | nil => simp at this
  | cons c t => exact ⟨c, t, rfl, by simpa using this.1⟩

/-- What the properties of a rule set say of its rules. -/
theorem rule_spec {set : RuleSet} {drafts : List RuleDraft} {props : List Property}
    (h : List.Forall₂ Writes drafts props)
    (hpatterns : set.rules.map (·.pattern) = props.map (·.pattern)) {i : Nat}
    (hi : i < set.rules.length) : ∃ draft, drafts[i]? = some draft ∧
      Writes draft (propertyAt props i) ∧ propertyAt props i ∈ props ∧
      ∀ rule, set.rules[i]? = some rule → rule.pattern = (propertyAt props i).pattern := by
  have hlen : set.rules.length = props.length := by
    simpa using congrArg List.length hpatterns
  have hp : propertyAt props i = props[i] := by
    rw [propertyAt, List.getD_eq_getElem?_getD, List.getElem?_eq_getElem (by omega)]
    rfl
  have hd : i < drafts.length := by
    rw [h.length_eq]
    omega
  refine ⟨drafts[i], List.getElem?_eq_getElem hd, ?_, hp ▸ List.getElem_mem _, fun rule hr => ?_⟩
  · rw [hp]
    exact h.get hd (by omega)
  · have := congrArg (·[i]?) hpatterns
    simp only [List.getElem?_map, hr, Option.map_some] at this
    rw [List.getElem?_eq_getElem (by omega)] at this
    rw [hp]
    simpa using this

/-- A rule set that is written down for properties is orderly when what their values may
be keeps clear of what is around it, and tells the rules apart. -/
theorem exists_orderly_of_writes {set : RuleSet} {drafts : List RuleDraft} {props : List Property}
    (gap : CharSet) (bears : Nat → List Char → Prop) (htable : set.table.HasVariables)
    (h : List.Forall₂ Writes drafts props)
    (hpatterns : set.rules.map (·.pattern) = props.map (·.pattern))
    (hgap : ∀ i < set.rules.length, (propertyAt props i).gap.all (within gap) = true)
    (hvalues : ∀ i (rule : Rule), set.rules[i]? = some rule →
      (propertyAt props i).Values set.table rule (bears i))
    (hlead : ∀ i v, bears i v → NoLead v)
    (hclear : ∀ i j v v', bears i v → bears j v' → ClearOf gap v v')
    (hsame : ∀ i < set.rules.length, ∀ j < set.rules.length, ∀ a f w b a' f' v b',
      a ++ f = a' ++ f' → w ++ b = v ++ b' →
      Lead (· ∈ namesOf (propertyAt props i)) gap a.isEmpty f →
      Lead (· ∈ namesOf (propertyAt props j)) gap a'.isEmpty f' →
      (propertyAt props i).value.Words w → bears j v → i = j) :
    ∃ phrases : Nat → Phrase, set.Orderly phrases := by
  have hspec := fun {i} => rule_spec (i := i) h hpatterns
  have hfamily : Property.Family set gap (propertyAt props)
      (fun i n => n ∈ namesOf (propertyAt props i)) bears :=
    { table := htable
      pattern_eq := fun i rule hr => by
        obtain ⟨draft, -, -, -, hrule⟩ := hspec (List.getElem?_eq_some_iff.1 hr).1
        exact hrule rule hr
      sound := fun i hi => by
        obtain ⟨draft, -, hw, -⟩ := hspec hi
        exact hw.sound
      within_gap := hgap
      name_mem := fun i hi n hn => by
        obtain ⟨draft, -, hw, -⟩ := hspec hi
        exact name_mem hw hn
      areNames := fun i hi => by
        obtain ⟨draft, -, hw, -⟩ := hspec hi
        exact areNames hw
      values := hvalues
      noLead := hlead
      clear := hclear
      same := hsame }
  obtain ⟨phrases, ho, -⟩ := hfamily.exists_orderly
  exact ⟨phrases, ho⟩

/-- A rule set of lists of lengths, no two rules of which have a name in common. -/
theorem exists_orderly_of_lengths {set : RuleSet} {drafts : List RuleDraft} {props : List Property}
    (htable : set.table.HasVariables) (h : List.Forall₂ Writes drafts props)
    (hpatterns : set.rules.map (·.pattern) = props.map (·.pattern))
    (hgap : ∀ p ∈ props, p.gap = quoted)
    (hvalues : ∀ p ∈ props, ∀ w, p.value.Words w → Strung Item w)
    (hnames : props.Pairwise fun p q => ∀ n ∈ namesOf p, n ∉ namesOf q) :
    ∃ phrases : Nat → Phrase, set.Orderly phrases := by
  have hspec := fun {i} => rule_spec (i := i) h hpatterns
  have hlen : set.rules.length = props.length := by
    simpa using congrArg List.length hpatterns
  refine exists_orderly_of_writes quoteGap (fun _ => Strung Piece) htable h hpatterns ?_ ?_
    (fun _ _ => Strung.noLead) (fun _ _ _ v' hv _ => hv.clearOf v') ?_
  · intro i hi
    obtain ⟨draft, -, -, hmem, -⟩ := hspec hi
    rw [hgap _ hmem]
    decide
  · intro i rule hr
    obtain ⟨draft, -, -, hmem, -⟩ := hspec (List.getElem?_eq_some_iff.1 hr).1
    exact lengthValues htable rule (hvalues _ hmem)
  · intro i hi j hj a f w b a' f' v b' hfront _ hf hf' _ _
    by_contra hij
    obtain ⟨draft, -, hw, -⟩ := hspec hi
    obtain ⟨draft', -, hw', -⟩ := hspec hj
    obtain ⟨n, hn, hn'⟩ := hf.exists_common_name hf' (areNames hw) (areNames hw') (by decide) hfront
    rw [propertyAt, List.getD_eq_getElem?_getD, List.getElem?_eq_getElem (by omega),
      Option.getD_some] at hn hn'
    rw [List.pairwise_iff_getElem] at hnames
    rcases Nat.lt_or_gt_of_ne hij with hlt | hgt
    · exact hnames i j (by omega) (by omega) hlt n hn hn'
    · exact hnames j i (by omega) (by omega) hgt n hn' hn

/-- The form of the colors that a rule takes. -/
def colorForm (i : Nat) : List Char → Prop :=
  if i = 0 then Hexadecimal else Componentwise

theorem colored_of_form {i : Nat} {v : List Char} (h : colorForm i v) : Colored v := by
  rw [colorForm] at h
  split at h
  · exact Or.inl h
  · exact Or.inr (Or.inl h)

theorem colored_of_bears {i : Nat} {v : List Char} (h : colorForm i v ∨ IsVariable v) :
    Colored v :=
  h.elim colored_of_form fun h => Or.inr (Or.inr h)

/-- What a value begins with tells the rule that takes it. -/
theorem eq_of_colors {i j : Nat} (hi : i < 2) (hj : j < 2) {w v b b' : List Char}
    (hw : colorForm i w) (hv : colorForm j v ∨ IsVariable v) (h : w ++ b = v ++ b') : i = j := by
  have hhex : ∀ {u}, Hexadecimal u → ∃ t, u = '#' :: t := fun ⟨y, hu, _⟩ => ⟨y, hu⟩
  have hcomponent : ∀ {u}, Componentwise u → ∃ t, u = 'r' :: t := by
    rintro _ ⟨x, y, rfl, rfl | rfl, -⟩ <;> exact ⟨_, rfl⟩
  have hvar : ∀ {u}, IsVariable u → ∃ t, u = 'v' :: t := fun ⟨name, hu, _⟩ => ⟨_, hu⟩
  interval_cases i <;> interval_cases j
  · rfl
  · obtain ⟨t, rfl⟩ := hhex hw
    rcases hv with hv | hv
    · obtain ⟨t', rfl⟩ := hcomponent hv
      simp at h
    · obtain ⟨t', rfl⟩ := hvar hv
      simp at h
  · obtain ⟨t, rfl⟩ := hcomponent hw
    rcases hv with hv | hv
    · obtain ⟨t', rfl⟩ := hhex hv
      simp at h
    · obtain ⟨t', rfl⟩ := hvar hv
      simp at h
  · rfl

/-- The rule set of colors. -/
theorem exists_orderly_of_colors {set : RuleSet} (htable : set.table.HasVariables)
    (hpatterns : set.rules.map (·.pattern) = colors.map (·.pattern))
    (hsplit : set.rules.map (·.splitValues) = color.map (·.splitValues)) :
    ∃ phrases : Nat → Phrase, set.Orderly phrases := by
  have hlen : set.rules.length = 2 := by
    simpa [colors] using congrArg List.length hpatterns
  have hwhole : ∀ (i : Nat) (rule : Rule), set.rules[i]? = some rule → rule.splitValues = false := by
    intro i rule hr
    have hm : rule.splitValues ∈ color.map (·.splitValues) := by
      rw [← hsplit]
      exact List.mem_map_of_mem (List.mem_of_getElem? hr)
    simpa [color] using hm
  have hwords : ∀ i < 2, ∀ w, (propertyAt colors i).value.Words w → colorForm i w := by
    intro i hi w hw
    interval_cases i
    · exact hexadecimal_of_words hw
    · exact componentwise_of_words hw
  refine exists_orderly_of_writes colorGap (fun i v => colorForm i v ∨ IsVariable v) htable
    color_writes hpatterns ?_ ?_ (fun _ _ hv => (colored_of_bears hv).noLead)
    (fun _ _ _ _ hv hv' => (colored_of_bears hv).clearOf (colored_of_bears hv')) ?_
  · intro i hi
    rw [hlen] at hi
    interval_cases i <;> decide
  · intro i rule hr
    have hi := (List.getElem?_eq_some_iff.1 hr).1
    refine colorValues htable (hwhole i rule hr) (hwords i (hlen ▸ hi))
      (fun _ => colored_of_form) fun w hw => ?_
    rw [colorForm] at hw
    split at hw
    · exact hw.readable (hwhole i rule hr)
    · exact hw.readable (hwhole i rule hr)
  · intro i hi j hj a f w b a' f' v b' _ hrest _ _ hw hv
    exact eq_of_colors (hlen ▸ hi) (hlen ▸ hj) (hwords i (hlen ▸ hi) w hw) hv hrest

/-! ### The built-in configuration -/

/-- Whether a token is a CSS variable. -/
def isVariable (token : List Char) : Bool :=
  "var(--".toList.isPrefixOf token && (token.drop 6).getLast? == some ')' &&
    (token.drop 6).dropLast.all fun c => c.isAlphanum || c == '-' || c == '_'

theorem isVariable_iff {token : List Char} (h : isVariable token = true) : IsVariable token := by
  simp only [isVariable, Bool.and_eq_true, List.isPrefixOf_iff_prefix, beq_iff_eq,
    List.all_eq_true, Bool.or_eq_true] at h
  obtain ⟨⟨⟨rest, rfl⟩, hlast⟩, hall⟩ := h
  have hdrop : ("var(--".toList ++ rest).drop 6 = rest := rfl
  rw [hdrop] at hlast hall
  refine ⟨rest.dropLast, ?_, fun c hc => ?_⟩
  · rw [List.dropLast_append_getLast? ')' hlast]
  · have := hall c hc
    tauto

theorem isVariable_of_mem_entries :
    ∀ entry ∈ entries, isVariable entry.token.toList = true := by decide +kernel

/-- The table of the built-in configuration. -/
theorem exists_table : ∃ table, TokenTable.ofEntries entries = .ok table ∧ table.HasVariables := by
  have hok : (TokenTable.ofEntries entries).toBool = true := by decide +kernel
  cases ht : TokenTable.ofEntries entries with
  | error fault =>
    rw [ht] at hok
    cases hok
  | ok table =>
    refine ⟨table, rfl, fun row hrow => ?_⟩
    obtain ⟨entry, hentry, -, rfl⟩ := TokenTable.exists_entry_of_ofEntries ht hrow
    exact isVariable_iff (isVariable_of_mem_entries entry hentry)

theorem strung_of_values (p : Property) (hp : p ∈ positions ++ (radii ++ (sizes ++ spacings)))
    (w : List Char) (hw : p.value.Words w) : Strung Item w := by
  simp only [positions, radii, sizes, spacings, List.cons_append, List.nil_append, List.mem_cons,
    List.not_mem_nil, or_false] at hp
  rcases hp with rfl | rfl | rfl | rfl | rfl | rfl | rfl | rfl | rfl
  · exact .last (item_of_signed_pixels ((words_seqOf _ _).1 hw))
  · exact .last (item_of_digits hw)
  · exact strung_of_list (fun _ => item_of_pixels) hw
  · exact .last (item_of_pixels ((words_seqOf _ _).1 hw))
  · exact .last (item_of_pixels ((words_seqOf _ _).1 hw))
  · exact .last (item_of_pixels ((words_seqOf _ _).1 hw))
  · exact strung_of_list (fun _ => item_of_margin) hw
  · exact strung_of_list (fun _ => item_of_margin) hw
  · exact strung_of_list (fun _ => item_of_margin) hw

/-- A configuration is sound if its parts are. -/
theorem checked_eq {configuration : Configuration} {table : TokenTable} {sets : List RuleSet}
    (hversion : configuration.schemaVersion = StyleTokens.schemaVersion)
    (hsome : configuration.ruleSets.isEmpty = false)
    (htime : configuration.gate.timeoutSeconds ≠ 0)
    (htable : TokenTable.ofEntries configuration.entries = .ok table)
    (hsets : configuration.ruleSets.mapM (fun (name, drafts) =>
      RuleSet.ofDrafts name drafts table) = .ok sets) :
    configuration.checked = .ok ⟨configuration, table, sets⟩ := by
  simp only [Configuration.checked, hversion, hsome, htable, htime]
  change (configuration.ruleSets.mapM (fun (name, drafts) =>
    RuleSet.ofDrafts name drafts table) >>= fun ruleSets =>
      pure (⟨configuration, table, ruleSets⟩ : Setup)) = _
  rw [hsets]
  rfl

/-- The built-in configuration is sound, and its rule sets are orderly. -/
theorem exists_checked : ∃ setup, configuration.checked = .ok setup ∧
    setup.ruleSets.map (·.name) = ["color", "position", "radius", "size", "spacing"] ∧
    ∀ set ∈ setup.ruleSets, set.table.HasVariables ∧
      ∃ phrases : Nat → Phrase, set.Orderly phrases := by
  obtain ⟨table, htable, hvars⟩ := exists_table
  obtain ⟨set1, h1, hname1, rfl, hp1, hs1⟩ := exists_ruleSet "color" table color_writes
    (by simp [color]) (by decide +kernel)
  obtain ⟨set2, h2, hname2, ht2, hp2, -⟩ := exists_ruleSet "position" set1.table position_writes
    (by simp [position]) (by decide +kernel)
  obtain ⟨set3, h3, hname3, ht3, hp3, -⟩ := exists_ruleSet "radius" set1.table radius_writes
    (by simp [radius]) (by decide +kernel)
  obtain ⟨set4, h4, hname4, ht4, hp4, -⟩ := exists_ruleSet "size" set1.table size_writes
    (by simp [size]) (by decide +kernel)
  obtain ⟨set5, h5, hname5, ht5, hp5, -⟩ := exists_ruleSet "spacing" set1.table spacing_writes
    (by simp [spacing]) (by decide +kernel)
  refine ⟨⟨configuration, set1.table, [set1, set2, set3, set4, set5]⟩, ?_, ?_, ?_⟩
  · refine checked_eq rfl rfl (by decide) htable ?_
    simp only [configuration, List.mapM_cons, List.mapM_nil, h1, h2, h3, h4, h5]
    rfl
  · simp [hname1, hname2, hname3, hname4, hname5]
  · simp only [List.forall_mem_cons, List.not_mem_nil, false_imp_iff, implies_true, and_true]
    refine ⟨⟨hvars, exists_orderly_of_colors hvars hp1 hs1⟩, ⟨ht2 ▸ hvars, ?_⟩, ⟨ht3 ▸ hvars, ?_⟩,
      ⟨ht4 ▸ hvars, ?_⟩, ⟨ht5 ▸ hvars, ?_⟩⟩
    · exact exists_orderly_of_lengths (ht2 ▸ hvars) position_writes hp2 (by simp [positions])
        (fun p hp => strung_of_values p (by simp [hp])) (by decide +kernel)
    · exact exists_orderly_of_lengths (ht3 ▸ hvars) radius_writes hp3 (by simp [radii])
        (fun p hp => strung_of_values p (by simp [hp])) (by decide +kernel)
    · exact exists_orderly_of_lengths (ht4 ▸ hvars) size_writes hp4 (by simp [sizes])
        (fun p hp => strung_of_values p (by simp [hp])) (by decide +kernel)
    · exact exists_orderly_of_lengths (ht5 ▸ hvars) spacing_writes hp5 (by simp [spacings])
        (fun p hp => strung_of_values p (by simp [hp])) (by decide +kernel)

/-- Comments survive a revision by a built-in rule set. -/
theorem comments_survive : ∃ setup, configuration.checked = .ok setup ∧
    setup.ruleSets.length = 5 ∧ ∀ set ∈ setup.ruleSets, set.table.HasVariables ∧
      (∀ rule ∈ set.rules, rule.SolidValues) ∧
      ∀ text, Comment.slices (set.revise text).text = Comment.slices text := by
  obtain ⟨setup, hsetup, hnames, hsets⟩ := exists_checked
  refine ⟨setup, hsetup, by simpa using congrArg List.length hnames, fun set hset => ?_⟩
  obtain ⟨htable, phrases, ho⟩ := hsets set hset
  have hsolid : ∀ rule ∈ set.rules, rule.SolidValues := fun rule hr => by
    obtain ⟨i, hi⟩ := List.getElem?_of_mem hr
    exact (ho.follows i rule hi).solidValues
  exact ⟨htable, hsolid, slices_revise set htable hsolid⟩

/-- The turns of the built-in rules for spacings stay within their texts. -/
theorem spacings_stay_within : ∃ table set, TokenTable.ofEntries entries = .ok table ∧
    RuleSet.ofDrafts "spacing" spacing table = .ok set ∧ ∀ text,
      (∀ k rule, set.rules[k]? = some rule → set.TurnSound rule (set.draftAt text k)) ∧
        ∀ k, (set.draftAt text k).Sound := by
  obtain ⟨table, htable, -⟩ := exists_table
  obtain ⟨set, hset, -⟩ := exists_ruleSet "spacing" table spacing_writes (by simp [spacing])
    (by decide +kernel)
  exact ⟨table, set, htable, hset, RuleSet.turns_sound htable hset⟩

/-- **The built-in rule sets leave nothing to replace.**  The built-in configuration is
sound, and whatever text one of its rule sets has revised, revising it once more
changes nothing and replaces nothing. -/
theorem revise_revise : ∃ setup, configuration.checked = .ok setup ∧
    setup.ruleSets.map (·.name) = ["color", "position", "radius", "size", "spacing"] ∧
    ∀ set ∈ setup.ruleSets, ∀ text,
      (set.revise (set.revise text).text).text = (set.revise text).text ∧
        (set.revise (set.revise text).text).replaced = 0 := by
  obtain ⟨setup, hsetup, hnames, hsets⟩ := exists_checked
  refine ⟨setup, hsetup, hnames, fun set hset text => ?_⟩
  obtain ⟨-, phrases, ho⟩ := hsets set hset
  exact ho.idempotent text

end Builtin

end StyleTokens

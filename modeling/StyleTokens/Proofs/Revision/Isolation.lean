/-
Categories do not reach into one another.

A rule asks the table for tokens of its own category only.  So the rows of other
categories can be changed at will: no rule of a set sees the change, and since each
rule finds what the rules before it left, neither does the set.  And what a rule brings
into a text are tokens of its own category.

* `TokenTable.AgreesOn` — two tables with the same rows of a category;
* `RuleSet.ofDrafts_withTable` — drafts make the same rules for every table;
* `RuleSet.step_congr`, `RuleSet.reviseWith_congr` — one turn, and all of them, with
  tables that agree;
* `Exchanged` — a text with tokens of a category in place of literals that have them;
* `RuleSet.exchanged_step` — the text before and after the turn of a rule;
* `RuleSet.revise_isolated` — a revision depends on the categories of its rules alone.
-/
import StyleTokens.Proofs.Builtin.RuleSets
import StyleTokens.Proofs.Revision.Single

namespace StyleTokens

open Text

/-! ### Tables that agree on a category -/

namespace TokenTable

/-- Two tables with the same rows of a category. -/
def AgreesOn (first second : TokenTable) (category : Category) : Prop :=
  ∀ key token, ((category, key), token) ∈ first.rows ↔ ((category, key), token) ∈ second.rows

variable {first second : TokenTable} {category : Category}

theorem AgreesOn.lookup? (h : first.AgreesOn second category) (literal : List Char) :
    first.lookup? category literal = second.lookup? category literal := by
  refine Option.ext fun token => ?_
  rw [lookup?_eq_some_iff, lookup?_eq_some_iff]
  exact h _ token

/-- Tables agree if they are made of the same entries of the category. -/
theorem agreesOn_of_entries {entries others : List TokenEntry}
    (hfirst : ofEntries entries = .ok first) (hsecond : ofEntries others = .ok second)
    (h : ∀ entry : TokenEntry, entry.category = category → (entry ∈ entries ↔ entry ∈ others)) :
    first.AgreesOn second category := by
  intro key token
  rw [(ofEntries_eq_ok_iff.1 hfirst).2, (ofEntries_eq_ok_iff.1 hsecond).2]
  simp only [List.mem_reverse, List.mem_map, TokenEntry.key, Prod.mk.injEq]
  refine exists_congr fun entry => and_congr_left ?_
  rintro ⟨⟨hcategory, -⟩, -⟩
  exact h entry hcategory

end TokenTable

/-! ### Rules that are made of drafts -/

theorem Rule.category_ofDraft {draft : RuleDraft} {rule : Rule}
    (h : Rule.ofDraft draft = .ok rule) : rule.category = draft.category := by
  unfold Rule.ofDraft at h
  dsimp only [bind, Except.bind, pure, Except.pure, throw, throwThe, MonadExceptOf.throw] at h
  split at h
  · cases h
  · split at h
    · cases h
    · split at h
      · cases h
      · split at h
        · cases h
        · cases h
          rfl

namespace RuleSet

variable {name : String} {drafts : List RuleDraft} {table : TokenTable} {set set' : RuleSet}

/-- Drafts make the same rules for every table. -/
theorem ofDrafts_withTable (h : ofDrafts name drafts table = .ok set) (other : TokenTable) :
    ofDrafts name drafts other = .ok { set with table := other } := by
  obtain ⟨hrules, hname, -⟩ := ofDrafts_eq_ok_iff.1 h
  exact ofDrafts_eq_ok_iff.2 ⟨hrules, hname, rfl⟩

/-- Each rule of a set has the category of one of its drafts. -/
theorem exists_draft_of_mem_rules (h : ofDrafts name drafts table = .ok set) {rule : Rule}
    (hm : rule ∈ set.rules) : ∃ draft ∈ drafts, draft.category = rule.category := by
  obtain ⟨hrules, -⟩ := ofDrafts_eq_ok_iff.1 h
  obtain ⟨draft, hd, hrule⟩ := exists_of_mem_mapM hrules hm
  exact ⟨draft, hd, (Rule.category_ofDraft hrule).symm⟩

/-! ### Turns with tables that agree -/

theorem ofValue_congr {first second : TokenTable} {rule : Rule}
    (h : first.AgreesOn second rule.category) (value : List Char) :
    Substitution.ofValue first rule value = Substitution.ofValue second rule value := by
  have hpart : Treatment.ofPart first rule.category = Treatment.ofPart second rule.category := by
    funext part
    rw [Treatment.ofPart, Treatment.ofPart, h.lookup?]
  rw [Substitution.ofValue, Substitution.ofValue, hpart]

theorem step_congr {rule : Rule} (h : set.table.AgreesOn set'.table rule.category)
    (draft : Draft) : set.step rule draft = set'.step rule draft := by
  rw [step, step]
  simp only [ofValue_congr h]

theorem reviseWith_congr (rules : List Rule)
    (h : ∀ rule ∈ rules, set.table.AgreesOn set'.table rule.category) :
    ∀ draft : Draft, set.reviseWith rules draft = set'.reviseWith rules draft := by
  induction rules with
  | nil => exact fun _ => rfl
  | cons rule rules ih =>
    obtain ⟨hrule, hrules⟩ := List.forall_mem_cons.1 h
    intro draft
    rw [reviseWith_cons, reviseWith_cons, step_congr hrule, ih hrules]

end RuleSet

/-! ### What a rule brings in -/

/-- The second text is the first one with a number of tokens of a category in it, each in
place of a literal that the table has under this category. -/
inductive Exchanged (table : TokenTable) (category : Category) :
    (count : Nat) → List Char → List Char → Prop
  | nil : Exchanged table category 0 [] []
  | kept {count : Nat} (part : List Char) {old new : List Char}
      (rest : Exchanged table category count old new) :
      Exchanged table category count (part ++ old) (part ++ new)
  | token {count : Nat} {part : List Char} {token : String} {old new : List Char}
      (row : ((category, Literal.key category.kind part), token) ∈ table.rows)
      (rest : Exchanged table category count old new) :
      Exchanged table category (count + 1) (part ++ old) (token.toList ++ new)

namespace Exchanged

variable {table : TokenTable} {category : Category} {count more : Nat}
  {old new old' new' : List Char}

theorem refl (text : List Char) : Exchanged table category 0 text text := by
  have hkept : Exchanged table category 0 (text ++ []) (text ++ []) := kept text nil
  rwa [List.append_nil] at hkept

theorem append (h : Exchanged table category count old new)
    (h' : Exchanged table category more old' new') :
    Exchanged table category (count + more) (old ++ old') (new ++ new') := by
  induction h with
  | nil => simpa using h'
  | kept part _ ih =>
    rw [List.append_assoc, List.append_assoc]
    exact kept part ih
  | token row _ ih =>
    rw [List.append_assoc, List.append_assoc, Nat.add_right_comm]
    exact token row ih

end Exchanged

namespace RuleSet

variable {set : RuleSet}

/-- What a rule makes of a value. -/
theorem exchanged_rewritten (set : RuleSet) (rule : Rule) (value : List Char) :
    Exchanged set.table rule.category (set.tokens rule value) value
      (set.rewritten rule value) := by
  have hpieces : ∀ pieces : List (List Char), Exchanged set.table rule.category
      (pieces.countP fun piece => (set.tokenOf? rule piece).isSome) pieces.flatten
      (pieces.map fun piece => (set.tokenOf? rule piece).getD piece).flatten := by
    intro pieces
    induction pieces with
    | nil => exact .nil
    | cons piece pieces ih =>
      rw [List.countP_cons, List.flatten_cons, List.map_cons, List.flatten_cons]
      cases htoken : set.tokenOf? rule piece with
      | none => exact .kept piece ih
      | some token =>
        rw [tokenOf?] at htoken
        split at htoken
        · cases htoken
        · obtain ⟨word, hword, rfl⟩ := Option.map_eq_some_iff.1 htoken
          exact .token (TokenTable.lookup?_eq_some_iff.1 hword) ih
  have hvalue : (rule.pieces value).flatten = value := by
    rw [Rule.pieces]
    split
    · exact flatten_runs value
    · simp
  have := hpieces (rule.pieces value)
  rwa [hvalue] at this

theorem exchanged_joined (set : RuleSet) (rule : Rule) (stretches : List Stretch) :
    Exchanged set.table rule.category
      (Count.total (stretches.map fun stretch => set.tokens rule stretch.value))
      (Stretch.joined id stretches) (Stretch.joined (set.rewritten rule) stretches) := by
  induction stretches with
  | nil => exact .nil
  | cons stretch stretches ih =>
    rw [Stretch.joined_cons, Stretch.joined_cons, List.map_cons, Count.total]
    exact .kept stretch.kept ((set.exchanged_rewritten rule stretch.value).append ih)

/-- A rule brings in tokens of its own category, as many as it counts. -/
theorem exchanged_step (set : RuleSet) (rule : Rule) (draft : Draft) :
    Exchanged set.table rule.category (set.step rule draft).2.replaced draft.text
      (set.step rule draft).1.text := by
  set edits := set.edits rule draft.text (rule.hits draft.claims draft.text) with hedits
  have hnew : ∀ e ∈ edits, e.text = set.rewritten rule (slice e.span draft.text) := by
    intro e he
    obtain ⟨hit, hm, hspan, hchange⟩ := exists_hit_of_mem_edits he
    obtain ⟨-, -, htext⟩ := change?_eq_some_iff.1 hchange
    rw [htext, hspan, Rule.literal_of_mem_hits hm]
  -- The stretches between the edits stay, and the values that end them are rewritten.
  obtain ⟨stretches, tail, htext, hspliced, -, hvalues⟩ :=
    (set.edits_fit rule draft.claims draft.text).exists_stretches (set.rewritten rule) [] rfl hnew
  have hcount : (set.step rule draft).2.replaced =
      Count.total (stretches.map fun stretch => set.tokens rule stretch.value) := by
    have htokens := congrArg (List.map (set.tokens rule)) hvalues
    rw [List.map_map, List.map_map] at htokens
    exact (set.total_replaced rule draft.text _ fun _ => Rule.literal_of_mem_hits).trans
      (congrArg Count.total htokens.symm)
  have hstep :
      (set.step rule draft).1.text = Stretch.joined (set.rewritten rule) stretches ++ tail :=
    (congrArg Draft.text (set.step_eq rule draft)).trans hspliced
  rw [hcount, hstep, htext]
  exact (set.exchanged_joined rule stretches).append (.refl tail)

/-- **Categories do not reach into one another.**  Drafts make a rule set with one table just
as with another one.  If the tables agree on the categories of the drafts, the two sets
revise every text alike and count alike, and each rule brings in tokens that the table
has under its own category, as many as it counts. -/
theorem revise_isolated {name : String} {drafts : List RuleDraft} {table table' : TokenTable}
    {set : RuleSet} (hset : ofDrafts name drafts table = .ok set)
    (hagree : ∀ draft ∈ drafts, table.AgreesOn table' draft.category) :
    ∃ set', ofDrafts name drafts table' = .ok set' ∧ ∀ text,
      set'.revise text = set.revise text ∧
      ∀ k rule, set.rules[k]? = some rule → ∃ tally, (set.revise text).tallies[k]? = some tally ∧
        Exchanged table rule.category tally.replaced (set.draftAt text k).text
          (set.draftAt text (k + 1)).text := by
  have htable := table_ofDrafts hset
  refine ⟨{ set with table := table' }, ofDrafts_withTable hset table', fun text => ⟨?_, ?_⟩⟩
  · refine (reviseWith_congr set.rules (fun rule hr => ?_) _).symm
    obtain ⟨draft, hd, hcategory⟩ := exists_draft_of_mem_rules hset hr
    rw [htable, ← hcategory]
    exact hagree draft hd
  · intro k rule hr
    refine ⟨_, revise_tally hr, ?_⟩
    rw [draftAt_succ hr, ← htable]
    exact set.exchanged_step rule _

/-- The entries of offsets and stacking orders, and one of dimensions. -/
def positioned : List TokenEntry :=
  Builtin.entries.filter (fun entry => entry.category = .position ∨ entry.category = .zIndex) ++
    [⟨"4px", .size, "var(--odd)"⟩]

/-- The built-in rules for positions do not see the entries for dimensions. -/
theorem positions_isolated : ∃ table table' set set',
    TokenTable.ofEntries Builtin.entries = .ok table ∧
    TokenTable.ofEntries positioned = .ok table' ∧
    table.lookup? .size "4px".toList ≠ table'.lookup? .size "4px".toList ∧
    (∀ draft ∈ Builtin.position, table.AgreesOn table' draft.category) ∧
    ofDrafts "position" Builtin.position table = .ok set ∧
    ofDrafts "position" Builtin.position table' = .ok set' ∧
    ∀ text, set'.revise text = set.revise text := by
  obtain ⟨table, htable, -⟩ := Builtin.exists_table
  have hentries : TokenTable.AreEntries positioned := by decide +kernel
  obtain ⟨table', htable'⟩ := TokenTable.exists_ofEntries_iff.2 hentries
  obtain ⟨set, hset, -⟩ := Builtin.exists_ruleSet "position" table Builtin.position_writes
    (by simp [Builtin.position]) (by decide +kernel)
  have hagree : ∀ draft ∈ Builtin.position, table.AgreesOn table' draft.category := by
    have hcategories : ∀ draft ∈ Builtin.position,
        draft.category = .position ∨ draft.category = .zIndex := by decide +kernel
    intro draft hd
    refine TokenTable.agreesOn_of_entries htable htable' fun entry hentry => ?_
    have hkept := hentry ▸ hcategories draft hd
    have hodd : entry ≠ ⟨"4px", .size, "var(--odd)"⟩ := by
      rintro rfl
      rcases hkept with h | h <;> cases h
    simp [positioned, hkept, hodd]
  have hfound : table'.lookup? .size "4px".toList = some "var(--odd)" :=
    ((TokenTable.holds_of_ofEntries htable').lookup_iff _ _ _).2 (by decide +kernel)
  have hnone : table.lookup? .size "4px".toList ≠ some "var(--odd)" := fun h =>
    absurd (((TokenTable.holds_of_ofEntries htable).lookup_iff _ _ _).1 h) (by decide +kernel)
  obtain ⟨set', hset', hsame⟩ := revise_isolated hset hagree
  exact ⟨table, table', set, set', htable, htable', hfound ▸ hnone, hagree, hset, hset',
    fun text => (hsame text).1⟩

end RuleSet

end StyleTokens

/-
What the tallies of a revision count.

A rule looks at the literals of the matches that touch no comment.  Each of them is
replaced, or has no token and is counted by its name, or is a zero that needs no token;
so the counts of a rule add up to the number of literals.  A rule that replaced nothing
leaves the text as it is.

* `sumOf` — the sum of counts by name; `mem_countNames_iff` — what is counted by name;
* `Tally.Sound` — a rule that matched nothing counts nothing; `revise_sound`;
* `Rule.literals` — the literals that a rule looks at;
* `RuleSet.Balances` — a tally whose counts are those of the literals and add up;
* `RuleSet.missing` — the names of the literals that have no token;
* `RuleSet.revise_balances` — the tallies and the fixes of a revision.
-/
import StyleTokens.Proofs.Revision.Single
import StyleTokens.Proofs.Text.Runs

namespace StyleTokens

open Text

/-! ### Counts by name -/

/-- The sum of counts by name. -/
def sumOf (counts : List (String × Nat)) : Nat :=
  Count.total (counts.map (·.2))

theorem sumOf_addCount (name : String) (count : Nat) (counts : List (String × Nat)) :
    sumOf (addCount name count counts) = count + sumOf counts := by
  induction counts with
  | nil => rfl
  | cons head counts ih =>
    obtain ⟨other, n⟩ := head
    rw [addCount]
    split
    · show n + count + sumOf counts = count + (n + sumOf counts)
      omega
    · split
      · rfl
      · show n + sumOf (addCount name count counts) = count + (n + sumOf counts)
        omega

theorem sumOf_countNames (names : List String) : sumOf (countNames names) = names.length := by
  suffices ∀ counts, sumOf (names.foldl (fun counts name => addCount name 1 counts) counts) =
      sumOf counts + names.length by
    have hall := this []
    rwa [show sumOf [] = 0 from rfl, Nat.zero_add] at hall
  induction names with
  | nil => exact fun _ => rfl
  | cons name names ih =>
    intro counts
    rw [List.foldl_cons, ih, sumOf_addCount, List.length_cons]
    omega

/-- Counts in increasing order of their names, so that no name is there twice. -/
def InOrder (counts : List (String × Nat)) : Prop :=
  counts.Pairwise fun a b => a.1 < b.1

theorem eq_or_mem_of_mem_addCount {name : String} {count : Nat} {counts : List (String × Nat)}
    {entry : String × Nat} (h : entry ∈ addCount name count counts) :
    entry.1 = name ∨ entry ∈ counts := by
  induction counts with
  | nil => exact Or.inl (congrArg Prod.fst (List.mem_singleton.1 h))
  | cons head counts ih =>
    obtain ⟨other, n⟩ := head
    rw [addCount] at h
    split at h
    · next heq =>
      rcases List.mem_cons.1 h with rfl | h
      · exact Or.inl heq.symm
      · exact Or.inr (List.mem_cons_of_mem _ h)
    · split at h
      · rcases List.mem_cons.1 h with rfl | h
        · exact Or.inl rfl
        · exact Or.inr h
      · rcases List.mem_cons.1 h with rfl | h
        · exact Or.inr List.mem_cons_self
        · exact (ih h).imp_right (List.mem_cons_of_mem _)

theorem inOrder_addCount {counts : List (String × Nat)} (h : InOrder counts) (name : String)
    (count : Nat) : InOrder (addCount name count counts) := by
  induction counts with
  | nil => exact List.pairwise_singleton _ _
  | cons head counts ih =>
    obtain ⟨other, n⟩ := head
    obtain ⟨hlater, hrest⟩ := List.pairwise_cons.1 h
    rw [addCount]
    split
    · exact List.pairwise_cons.2 ⟨hlater, hrest⟩
    · next hne =>
      split
      · next hlt =>
        refine List.pairwise_cons.2 ⟨fun entry he => ?_, h⟩
        rcases List.mem_cons.1 he with rfl | he
        · exact hlt
        · exact String.lt_trans hlt (hlater entry he)
      · next hge =>
        refine List.pairwise_cons.2 ⟨fun entry he => ?_, ih hrest⟩
        rcases eq_or_mem_of_mem_addCount he with heq | he
        · rw [heq]
          by_contra hle
          exact hne (String.le_antisymm (String.not_lt.1 hle) (String.not_lt.1 hge))
        · exact hlater entry he

/-- Adding to the count of a name leaves the other names alone. -/
theorem mem_addCount_of_ne {name other : String} (h : other ≠ name) (count n : Nat)
    (counts : List (String × Nat)) :
    (other, n) ∈ addCount name count counts ↔ (other, n) ∈ counts := by
  induction counts with
  | nil => simp [addCount, h]
  | cons head counts ih =>
    obtain ⟨first, m⟩ := head
    rw [addCount]
    split
    · next heq =>
      subst heq
      simp [h]
    · split
      · simp [h]
      · rw [List.mem_cons, List.mem_cons, ih]

/-- A name that is counted already is counted further, and a new one from nothing. -/
theorem mem_addCount_self_iff {counts : List (String × Nat)} (h : InOrder counts)
    {name : String} {count n : Nat} : (name, n) ∈ addCount name count counts ↔
      (∃ m, (name, m) ∈ counts ∧ n = m + count) ∨ n = count ∧ ∀ m, (name, m) ∉ counts := by
  induction counts with
  | nil => simp [addCount]
  | cons head counts ih =>
    obtain ⟨other, old⟩ := head
    obtain ⟨hlater, hrest⟩ := List.pairwise_cons.1 h
    have hfresh : ∀ m, (other, m) ∉ counts := fun m hm =>
      String.lt_irrefl _ (hlater (other, m) hm)
    rw [addCount]
    split
    · next heq =>
      subst heq
      simp [hfresh]
    · next hne =>
      split
      · next hlt =>
        have hno : ∀ m, (name, m) ∉ counts := fun m hm =>
          String.lt_irrefl _ (String.lt_trans hlt (hlater _ hm))
        simp [hne, hno]
      · simp [hne, ih hrest]

theorem InOrder.nodup {counts : List (String × Nat)} (h : InOrder counts) :
    (counts.map Prod.fst).Nodup := by
  rw [List.Nodup, List.pairwise_map]
  refine h.imp fun {a b} hlt heq => ?_
  rw [heq] at hlt
  exact String.lt_irrefl _ hlt

theorem countNames_concat (names : List String) (name : String) :
    countNames (names ++ [name]) = addCount name 1 (countNames names) := by
  rw [countNames, countNames, List.foldl_append]
  rfl

theorem inOrder_countNames (names : List String) : InOrder (countNames names) := by
  induction names using List.reverseRecOn with
  | nil => exact .nil
  | append_singleton names name ih =>
    rw [countNames_concat]
    exact inOrder_addCount ih name 1

/-- Every name that occurs is counted, and with the number of its occurrences. -/
theorem mem_countNames_iff {names : List String} {name : String} {n : Nat} :
    (name, n) ∈ countNames names ↔ 0 < n ∧ n = names.count name := by
  induction names using List.reverseRecOn generalizing n with
  | nil =>
    refine ⟨fun h => (by cases h), fun ⟨hpos, hn⟩ => ?_⟩
    rw [hn] at hpos
    cases hpos
  | append_singleton names last ih =>
    rw [countNames_concat, List.count_append]
    by_cases h : name = last
    · subst h
      rw [mem_addCount_self_iff (inOrder_countNames names), List.count_singleton_self]
      simp only [ih]
      constructor
      · rintro (⟨m, ⟨-, rfl⟩, rfl⟩ | ⟨rfl, hno⟩)
        · exact ⟨Nat.succ_pos _, rfl⟩
        · have : names.count name = 0 := by
            by_contra hne
            exact hno _ ⟨Nat.pos_of_ne_zero hne, rfl⟩
          omega
      · rintro ⟨-, rfl⟩
        rcases Nat.eq_zero_or_pos (names.count name) with hzero | hpos
        · exact Or.inr ⟨by omega, fun m hm => by omega⟩
        · exact Or.inl ⟨_, ⟨hpos, rfl⟩, rfl⟩
    · rw [mem_addCount_of_ne h, ih, List.count_singleton, if_neg (by simpa using Ne.symm h),
        Nat.add_zero]

/-! ### Tallies -/

/-- A tally that counts nothing unless the rule has matched, and every literal without a
token by its name. -/
structure Tally.Sound (tally : Tally) : Prop where
  replaced_of_no_match : tally.matched = 0 → tally.replaced = 0
  unmapped_of_no_match : tally.matched = 0 → tally.unmapped = 0
  sumOf_literals : sumOf tally.unmappedLiterals = tally.unmapped

theorem RuleSet.step_sound (set : RuleSet) (rule : Rule) (draft : Draft) :
    (set.step rule draft).2.Sound := by
  have hnone : (set.step rule draft).2.matched = 0 → rule.hits draft.claims draft.text = [] :=
    fun h => List.eq_nil_of_length_eq_zero h
  refine ⟨fun h => ?_, fun h => ?_, ?_⟩
  · rw [step, hnone h]
    rfl
  · rw [step, hnone h]
    rfl
  · exact sumOf_countNames _

theorem RuleSet.reviseWith_sound (set : RuleSet) (rules : List Rule) (draft : Draft) :
    ∀ tally ∈ (set.reviseWith rules draft).tallies, tally.Sound := by
  induction rules generalizing draft with
  | nil => exact fun _ h => by cases h
  | cons rule rules ih =>
    intro tally ht
    rcases List.mem_cons.1 ht with rfl | ht
    · exact set.step_sound rule draft
    · exact ih _ tally ht

/-- **A rule that has matched nothing counts nothing.** -/
theorem RuleSet.revise_sound (set : RuleSet) (text : List Char) :
    ∀ tally ∈ (set.revise text).tallies, tally.Sound :=
  set.reviseWith_sound _ _

/-- The fixes of a revision make up its replacements. -/
theorem Revision.total_fixes (revision : Revision) :
    Count.total (revision.fixes.map (·.count)) = revision.replaced := by
  rw [fixes, List.map_map]
  exact Count.total_filter fun tally _ hno => by simpa using hno

/-! ### The literals that a rule looks at -/

/-- What is counted in each of several lists is counted in all of them. -/
theorem Count.total_countP {α β : Type} (p : β → Bool) (f : α → List β) (l : List α) :
    total (l.map fun a => (f a).countP p) = (l.flatMap f).countP p := by
  induction l with
  | nil => rfl
  | cons a l ih => rw [List.map_cons, total, ih, List.flatMap_cons, List.countP_append]

namespace Rule

/-- The matches of a rule that touch no comment. -/
def free (rule : Rule) (draft : Draft) : List Hit :=
  (rule.hits draft.claims draft.text).filter (!·.span.overlapsAny (Comment.spans draft.text))

/-- The literals that a rule looks at: the pieces of the values of these matches, without
the white space between them. -/
def literals (rule : Rule) (draft : Draft) : List (List Char) :=
  (rule.free draft).flatMap fun hit => (rule.pieces hit.literal).filter (!allBlank ·)

end Rule

namespace RuleSet

/-- Whether a literal has a token. -/
def hasToken (set : RuleSet) (rule : Rule) (literal : List Char) : Bool :=
  (set.table.lookup? rule.category literal).isSome

/-- Whether a literal is a zero that has no token and needs none. -/
def isIdleZero (set : RuleSet) (rule : Rule) (literal : List Char) : Bool :=
  !set.hasToken rule literal && Literal.isNeutralZero rule.category.kind literal

/-- Whether a literal needs a token and has none. -/
def lacksToken (set : RuleSet) (rule : Rule) (literal : List Char) : Bool :=
  !set.hasToken rule literal && !Literal.isNeutralZero rule.category.kind literal

/-- A literal has a token, lacks one or is an idle zero. -/
theorem length_eq_countP (set : RuleSet) (rule : Rule) (literals : List (List Char)) :
    literals.length = literals.countP (set.hasToken rule) +
      literals.countP (set.lacksToken rule) + literals.countP (set.isIdleZero rule) := by
  induction literals with
  | nil => rfl
  | cons literal literals ih =>
    rw [List.length_cons, List.countP_cons, List.countP_cons, List.countP_cons, ih, lacksToken,
      isIdleZero]
    cases set.hasToken rule literal <;>
      cases Literal.isNeutralZero rule.category.kind literal <;> simp <;> omega

/-- The literals of a value that a rule has no token for. -/
theorem unmapped_ofValue (set : RuleSet) (rule : Rule) (value : List Char) :
    (Substitution.ofValue set.table rule value).unmapped =
      (((rule.pieces value).filter (!allBlank ·)).filter (set.lacksToken rule)).map
        fun literal => String.ofList (trim literal) := by
  rw [Substitution.ofValue, Substitution.unmapped, ← Rule.pieces, List.filterMap_map]
  induction rule.pieces value with
  | nil => rfl
  | cons piece pieces ih =>
    rw [List.filterMap_cons, ih, Function.comp_apply, Treatment.ofPart, List.filter_cons]
    cases hblank : allBlank piece with
    | true => rfl
    | false =>
      rw [if_neg Bool.false_ne_true, Bool.not_false, if_pos rfl, List.filter_cons, lacksToken,
        hasToken]
      cases set.table.lookup? rule.category piece with
      | some token => rfl
      | none => cases Literal.isNeutralZero rule.category.kind piece <;> rfl

/-- The literals of a value that a rule has a token for. -/
theorem tokens_eq_countP (set : RuleSet) (rule : Rule) (value : List Char) :
    set.tokens rule value =
      ((rule.pieces value).filter (!allBlank ·)).countP (set.hasToken rule) := by
  rw [tokens, List.countP_filter]
  refine List.countP_congr fun piece _ => ?_
  rw [tokenOf?, hasToken]
  cases allBlank piece <;> simp

/-- A tally whose counts are those of the literals that the rule looks at, so that they add
up. -/
structure Balances (set : RuleSet) (rule : Rule) (draft : Draft) (tally : Tally) : Prop where
  rule_eq : tally.rule = rule.id
  /-- All matches are counted, and those that touch a comment once more. -/
  matched : tally.matched = (rule.hits draft.claims draft.text).length
  inComment : tally.inComment = (rule.hits draft.claims draft.text).countP
    (·.span.overlapsAny (Comment.spans draft.text))
  replaced : tally.replaced = (rule.literals draft).countP (set.hasToken rule)
  unmapped : tally.unmapped = (rule.literals draft).countP (set.lacksToken rule)
  /-- Literals without a token are counted by name, without the white space around them. -/
  named : ∀ name count, (name, count) ∈ tally.unmappedLiterals ↔ 0 < count ∧
    count = ((rule.literals draft).filter (set.lacksToken rule)).countP
      fun literal => String.ofList (trim literal) = name
  distinct : (tally.unmappedLiterals.map Prod.fst).Nodup
  sumOf_named : sumOf tally.unmappedLiterals = tally.unmapped
  trimmed : ∀ entry ∈ tally.unmappedLiterals, Text.trimmed entry.1 = entry.1
  /-- A value that is one literal is replaced, unmapped or an idle zero. -/
  whole : rule.splitValues = false → tally.matched - tally.inComment =
    tally.replaced + tally.unmapped + (rule.literals draft).countP (set.isIdleZero rule)
  /-- The items of a list of literals are. -/
  listed : rule.splitValues = true →
    ((rule.free draft).flatMap fun hit => (runs hit.literal).filter (!allBlank ·)).length =
      tally.replaced + tally.unmapped + (rule.literals draft).countP (set.isIdleZero rule)

/-- The matches of a rule are those that touch a comment and the others. -/
theorem length_hits_eq (rule : Rule) (draft : Draft) :
    (rule.hits draft.claims draft.text).length = (rule.hits draft.claims draft.text).countP
      (·.span.overlapsAny (Comment.spans draft.text)) + (rule.free draft).length := by
  rw [Rule.free, ← List.countP_eq_length_filter]
  simpa using List.length_eq_countP_add_countP (l := rule.hits draft.claims draft.text)
    (·.span.overlapsAny (Comment.spans draft.text))

/-- A rule that does not split values looks at one literal in each match. -/
theorem length_literals_of_whole {rule : Rule} (h : rule.splitValues = false) (draft : Draft) :
    (rule.literals draft).length = (rule.free draft).length := by
  rw [Rule.literals, List.length_flatMap]
  have hone : ∀ hit ∈ rule.free draft,
      ((rule.pieces hit.literal).filter (!allBlank ·)).length = 1 := by
    intro hit hm
    obtain ⟨_, _, value, _, _, -, hf⟩ := (Rule.hits_fit (List.mem_filter.1 hm).1).1
    rw [Rule.pieces, h, if_neg Bool.false_ne_true, hf.literal_eq]
    simp [hf.solid]
  rw [List.map_congr_left hone]
  simp

/-- The names of the literals that a rule has no token for, one after another. -/
def missing (set : RuleSet) (rule : Rule) (draft : Draft) : List String :=
  ((rule.literals draft).filter (set.lacksToken rule)).map fun literal =>
    String.ofList (trim literal)

theorem length_missing (set : RuleSet) (rule : Rule) (draft : Draft) :
    (set.missing rule draft).length = (rule.literals draft).countP (set.lacksToken rule) := by
  rw [missing, List.length_map, List.countP_eq_length_filter]

theorem trimmed_of_mem_missing {set : RuleSet} {rule : Rule} {draft : Draft} {name : String}
    (h : name ∈ set.missing rule draft) : Text.trimmed name = name := by
  obtain ⟨literal, -, rfl⟩ := List.mem_map.1 h
  rw [Text.trimmed, String.toList_ofList, trim_trim]

/-- The names that are missing in the values of the matches, value by value. -/
theorem flatten_unmapped (set : RuleSet) (rule : Rule) (draft : Draft) :
    (((rule.free draft).map fun hit =>
      (hit, Substitution.ofValue set.table rule hit.literal)).map (·.2.unmapped)).flatten =
      set.missing rule draft := by
  rw [missing, Rule.literals, List.filter_flatMap, List.map_flatMap, List.flatMap_def, List.map_map]
  simp only [Function.comp_def, unmapped_ofValue]

theorem unmappedLiterals_step (set : RuleSet) (rule : Rule) (draft : Draft) :
    (set.step rule draft).2.unmappedLiterals = countNames (set.missing rule draft) :=
  congrArg countNames (set.flatten_unmapped rule draft)

theorem unmapped_step (set : RuleSet) (rule : Rule) (draft : Draft) :
    (set.step rule draft).2.unmapped = (rule.literals draft).countP (set.lacksToken rule) :=
  (congrArg List.length (set.flatten_unmapped rule draft)).trans (set.length_missing rule draft)

theorem replaced_step (set : RuleSet) (rule : Rule) (draft : Draft) :
    (set.step rule draft).2.replaced = (rule.literals draft).countP (set.hasToken rule) := by
  rw [Rule.literals, ← Count.total_countP]
  simp only [← tokens_eq_countP, ← replaced_ofValue]
  rw [step, List.map_map]
  rfl

/-- Every turn of a rule gives such a tally. -/
theorem balances_step (set : RuleSet) (rule : Rule) (draft : Draft) :
    set.Balances rule draft (set.step rule draft).2 := by
  have hmatched : (set.step rule draft).2.matched =
    (rule.hits draft.claims draft.text).length := rfl
  have hcomment : (set.step rule draft).2.inComment =
    (rule.hits draft.claims draft.text).length - (rule.free draft).length := rfl
  have hhits := length_hits_eq rule draft
  have hnamed := set.unmappedLiterals_step rule draft
  -- The literals that are looked at, each counted in one way.
  have hbalance := set.length_eq_countP rule (rule.literals draft)
  rw [← set.replaced_step rule draft, ← set.unmapped_step rule draft] at hbalance
  refine ⟨rfl, hmatched, by omega, set.replaced_step rule draft, set.unmapped_step rule draft,
    fun name count => ?_, ?_, (set.step_sound rule draft).sumOf_literals, fun entry he => ?_,
    fun hwhole => ?_, fun hlisted => ?_⟩
  · rw [hnamed, mem_countNames_iff, missing, List.count_eq_countP, List.countP_map]
    simp only [Function.comp_def, beq_eq_decide]
  · rw [hnamed]
    exact (inOrder_countNames _).nodup
  · rw [hnamed] at he
    obtain ⟨hpos, hcount⟩ := mem_countNames_iff.1 he
    exact trimmed_of_mem_missing (List.count_pos_iff.1 (hcount ▸ hpos))
  · rw [← hbalance, length_literals_of_whole hwhole]
    omega
  · rw [← hbalance, Rule.literals]
    simp only [Rule.pieces, hlisted, if_true]

/-! ### A whole revision -/

/-- A rule that replaces nothing leaves the text as it is. -/
theorem text_step_of_replaced_eq_zero {set : RuleSet} {rule : Rule} {draft : Draft}
    (h : (set.step rule draft).2.replaced = 0) : (set.step rule draft).1.text = draft.text := by
  rw [(set.balances_step rule draft).replaced, List.countP_eq_zero] at h
  have hedits : set.edits rule draft.text (rule.hits draft.claims draft.text) = [] := by
    refine List.filterMap_eq_nil_iff.2 fun hit hm => Option.map_eq_none_iff.2 ?_
    cases hc : set.change? rule draft.text hit with
    | none => rfl
    | some new =>
      obtain ⟨hfree, htokens, -⟩ := change?_eq_some_iff.1 hc
      rw [tokens_eq_countP, ← Nat.pos_iff_ne_zero, List.countP_pos_iff] at htokens
      obtain ⟨literal, hl, htoken⟩ := htokens
      have hhit : hit ∈ rule.free draft :=
        List.mem_filter.2 ⟨hm, by rw [overlapsAny_eq_false.2 hfree]; rfl⟩
      exact absurd htoken (h literal (List.mem_flatMap.2 ⟨hit, hhit, hl⟩))
  rw [step_eq]
  dsimp only
  rw [hedits, splice]

/-- Rules that replace nothing leave the text as it is. -/
theorem text_reviseWith_of_replaced_eq_zero (set : RuleSet) (rules : List Rule) :
    ∀ draft : Draft, (set.reviseWith rules draft).replaced = 0 →
      (set.reviseWith rules draft).text = draft.text := by
  induction rules with
  | nil => exact fun _ _ => rfl
  | cons rule rules ih =>
    intro draft h
    rw [reviseWith_cons, Revision.replaced, List.map_cons, Count.total, Nat.add_eq_zero_iff] at h
    rw [reviseWith_cons]
    exact (ih _ h.2).trans (text_step_of_replaced_eq_zero h.1)

/-- There is a tally for each rule. -/
theorem length_tallies (set : RuleSet) (rules : List Rule) :
    ∀ draft : Draft, (set.reviseWith rules draft).tallies.length = rules.length := by
  induction rules with
  | nil => exact fun _ => rfl
  | cons rule rules ih =>
    intro draft
    rw [reviseWith_cons, List.length_cons, List.length_cons, ih]

/-- The fixes are those of the rules that replaced something, in their order. -/
theorem fixes_reviseWith (set : RuleSet) (rules : List Rule) : ∀ draft : Draft,
    (set.reviseWith rules draft).fixes =
      ((rules.zip (set.reviseWith rules draft).tallies).filter (0 < ·.2.replaced)).map
        fun turn => ⟨turn.1.id, turn.2.replaced⟩ := by
  induction rules with
  | nil => exact fun _ => rfl
  | cons rule rules ih =>
    intro draft
    have hrest := ih (set.step rule draft).1
    rw [Revision.fixes] at hrest
    rw [reviseWith_cons, Revision.fixes, List.zip_cons_cons, List.filter_cons, List.filter_cons]
    by_cases hr : 0 < (set.step rule draft).2.replaced
    · rw [if_pos (by simpa using hr), if_pos (by simpa using hr), List.map_cons, List.map_cons,
        hrest]
      rfl
    · rw [if_neg (by simpa using hr), if_neg (by simpa using hr), hrest]

/-- **The counts of a revision balance.**  Each rule has a tally, whose counts are those of
the literals that the rule looks at; the fixes are the rules that replaced something, in
order, and make up all replacements; and where nothing is replaced the text is as before. -/
theorem revise_balances (set : RuleSet) (text : List Char) :
    (set.revise text).tallies.length = set.rules.length ∧
    (∀ k rule, set.rules[k]? = some rule → ∃ tally, (set.revise text).tallies[k]? = some tally ∧
      set.Balances rule (set.draftAt text k) tally) ∧
    ((set.revise text).fixes =
      ((set.rules.zip (set.revise text).tallies).filter (0 < ·.2.replaced)).map
        fun turn => ⟨turn.1.id, turn.2.replaced⟩) ∧
    Count.total ((set.revise text).fixes.map (·.count)) = (set.revise text).replaced ∧
    ((set.revise text).replaced = 0 → (set.revise text).text = text) :=
  ⟨set.length_tallies _ _,
    fun _ rule hr => ⟨_, revise_tally hr, set.balances_step rule _⟩,
    set.fixes_reviseWith _ _,
    (set.revise text).total_fixes,
    set.text_reviseWith_of_replaced_eq_zero _ _⟩

end RuleSet

end StyleTokens

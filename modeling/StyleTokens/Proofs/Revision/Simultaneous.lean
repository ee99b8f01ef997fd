/-
Rules applied one after another make one substitution.

Each rule searches the text as the rules before it left it, and the claims of
those rules move with the text.  All the same the outcome is that of a single
substitution on the original text: the claims of all rules are disjoint places
of the original text, and in each of them its own rule alone may exchange the
value.

* `RuleSet.draftAt` — text and claims before the turn of a rule;
* `Layout.Describes` — a layout that fits the turns of the first rules;
* `Layout.exists_extend` — the hits of one more rule can be added to a layout;
* `revise_eq_simultaneous` — a layout describes the whole revision.

Design notes: the hits of a rule are added from right to left, so that each of
them comes before those that are there already.
-/
import StyleTokens.Proofs.Revision.Layout

namespace StyleTokens

open Text

namespace RuleSet

/-- The draft that the rule with a number finds. -/
def draftAt (set : RuleSet) (text : List Char) : Nat → Draft
  | 0 => ⟨text, []⟩
  | k + 1 =>
    match set.rules[k]? with
    | some rule => (set.step rule (set.draftAt text k)).1
    | none => set.draftAt text k

variable {set : RuleSet} {text : List Char}

theorem draftAt_succ {k : Nat} {rule : Rule} (h : set.rules[k]? = some rule) :
    set.draftAt text (k + 1) = (set.step rule (set.draftAt text k)).1 := by
  rw [draftAt, h]

theorem reviseWith_cons (set : RuleSet) (rule : Rule) (rules : List Rule) (draft : Draft) :
    set.reviseWith (rule :: rules) draft =
      ⟨(set.reviseWith rules (set.step rule draft).1).text,
        (set.step rule draft).2 :: (set.reviseWith rules (set.step rule draft).1).tallies⟩ := rfl

/-- A revision goes through these drafts. -/
theorem reviseWith_drop (set : RuleSet) (text : List Char) : ∀ (n k : Nat),
    set.rules.length = k + n →
      (set.reviseWith (set.rules.drop k) (set.draftAt text k)).text =
        (set.draftAt text set.rules.length).text ∧
      ∀ j rule, k ≤ j → set.rules[j]? = some rule →
        (set.reviseWith (set.rules.drop k) (set.draftAt text k)).tallies[j - k]? =
          some (set.step rule (set.draftAt text j)).2 := by
  intro n
  induction n with
  | zero =>
    intro k hk
    rw [List.drop_eq_nil_of_le (by omega), hk, Nat.add_zero]
    refine ⟨rfl, fun j rule hj hr => ?_⟩
    have := (List.getElem?_eq_some_iff.1 hr).1
    omega
  | succ n ih =>
    intro k hk
    have hlt : k < set.rules.length := by omega
    have hr : set.rules[k]? = some set.rules[k] := List.getElem?_eq_getElem hlt
    obtain ⟨h1, h2⟩ := ih (k + 1) (by omega)
    rw [List.drop_eq_getElem_cons hlt, reviseWith_cons, ← draftAt_succ hr]
    refine ⟨h1, fun j rule hj hrule => ?_⟩
    rcases Nat.eq_or_lt_of_le hj with rfl | hj
    · obtain rfl : set.rules[k] = rule := Option.some.inj (hr.symm.trans hrule)
      simp
    · have := h2 j rule hj hrule
      rw [show j - k = j - (k + 1) + 1 by omega, List.getElem?_cons_succ]
      exact this

theorem revise_text (set : RuleSet) (text : List Char) :
    (set.revise text).text = (set.draftAt text set.rules.length).text :=
  (reviseWith_drop set text set.rules.length 0 (by omega)).1

theorem revise_tally {k : Nat} {rule : Rule} (h : set.rules[k]? = some rule) :
    (set.revise text).tallies[k]? = some (set.step rule (set.draftAt text k)).2 :=
  (reviseWith_drop set text set.rules.length 0 (by omega)).2 k rule (Nat.zero_le k) h

end RuleSet

namespace Layout

/-- The original text. -/
def original : Layout → List Char
  | last gap => gap
  | site gap s rest => gap ++ (s.lead ++ (s.value ++ s.trail) ++ rest.original)

/-- The text with every change made. -/
def revised : Layout → List Char
  | last gap => gap
  | site gap s rest => gap ++ (s.lead ++ (s.change.getD s.value ++ s.trail) ++ rest.revised)

/-- The hits of a rule, at its turn. -/
def hitsAt (k : Nat) (layout : Layout) : List Hit :=
  ((layout.placedAt k).filter (·.2.owner = k)).map fun p => p.2.hitAt p.1

theorem textAt_zero (layout : Layout) : layout.textAt 0 = layout.original := by
  induction layout with
  | last gap => rfl
  | site gap s rest ih => simp [textAt, original, ih, Site.textAt_of_le]

theorem textAt_of_forall_lt {layout : Layout} {k : Nat} (h : ∀ s ∈ layout.sites, s.owner < k) :
    layout.textAt k = layout.revised := by
  induction layout with
  | last gap => rfl
  | site gap s rest ih =>
    have hs := h s (by simp [sites])
    rw [textAt, revised, ih fun t ht => h t (by simp [sites, ht]), Site.textAt, Site.valueAt,
      if_pos hs]

theorem mem_sites_iff {layout : Layout} {s : Site} (k : Nat) :
    s ∈ layout.sites ↔ ∃ p ∈ layout.placedAt k, p.2 = s := by
  rw [← map_snd_placedFrom, placedAt, List.mem_map]

/-- The edits of a rule are those of its sites. -/
theorem editsFrom_eq (k offset : Nat) (layout : Layout) :
    layout.editsFrom k offset =
      ((layout.placedFrom k offset).filter (·.2.owner = k)).filterMap
        fun p => p.2.edit? p.1.start := by
  induction layout generalizing offset with
  | last gap => rfl
  | site gap s rest ih =>
    rw [editsFrom, placedFrom, ih]
    by_cases ho : s.owner = k
    · cases he : s.edit? (offset + byteLength gap) <;> simp [ho, he]
    · simp [ho]

variable {layout : Layout} {k : Nat}

/-- The hits of a rule can be added to a layout of the rules before it. -/
theorem exists_extend (change : Hit → Option (List Char)) (howner : ∀ s ∈ layout.sites, s.owner < k) :
    ∀ hits : List Hit,
      (∀ hit ∈ hits, ∃ before lead value trail after,
        layout.textAt k = before ++ (lead ++ (value ++ trail) ++ after) ∧
        hit.Fits before lead value trail after) →
      (∀ hit ∈ hits, ∀ p ∈ layout.placedAt k, hit.span.overlaps p.1 = false) →
      hits.Pairwise (fun a b => a.span.stop ≤ b.span.start) →
      ∃ wider : Layout,
        (∀ j ≤ k, wider.textAt j = layout.textAt j) ∧
        (∀ j ≤ k, (wider.placedAt j).filter (·.2.owner ≠ k) = layout.placedAt j) ∧
        wider.hitsAt k = hits ∧
        (∀ p ∈ wider.placedAt k, p.2.owner = k → p.2.change = change (p.2.hitAt p.1)) ∧
        (∀ s ∈ wider.sites, s ∈ layout.sites ∨ s.owner = k ∧ s.value ≠ []) := by
  intro hits
  induction hits with
  | nil =>
    intro _ _ _
    have hfilter : ∀ j, (layout.placedAt j).filter (·.2.owner ≠ k) = layout.placedAt j := by
      intro j
      refine List.filter_eq_self.2 fun p hp => ?_
      have := howner p.2 ((mem_sites_iff j).2 ⟨p, hp, rfl⟩)
      simp only [ne_eq, decide_not, Bool.not_eq_true', decide_eq_false_iff_not]
      omega
    have hnone : ∀ p ∈ layout.placedAt k, p.2.owner ≠ k := fun p hp =>
      (howner p.2 ((mem_sites_iff k).2 ⟨p, hp, rfl⟩)).ne
    refine ⟨layout, fun _ _ => rfl, fun j _ => hfilter j, ?_, fun p hp ho => absurd ho (hnone p hp),
      fun s hs => Or.inl hs⟩
    rw [hitsAt, List.filter_eq_nil_iff.2 (by simpa using hnone)]
    rfl
  | cons hit hits ih =>
    intro hfit hfree hapart
    obtain ⟨hfirst, hrest⟩ := List.pairwise_cons.1 hapart
    obtain ⟨wider, htext, hold, hhits, hchange, hsites⟩ :=
      ih (fun h hm => hfit h (List.mem_cons_of_mem _ hm))
        (fun h hm => hfree h (List.mem_cons_of_mem _ hm)) hrest
    obtain ⟨before, lead, value, trail, after, hk, hf⟩ := hfit hit List.mem_cons_self
    have hv := hf.value_ne_nil
    set s : Site := ⟨k, lead, value, trail, change hit⟩ with hs
    have hst : s.textAt k = lead ++ (value ++ trail) := Site.textAt_of_le le_rfl
    -- What lies in the wider layout is a claim of an earlier rule or a later hit.
    have hapart' : ∀ p ∈ wider.placedAt k, p.1.stop ≤ hit.span.start ∨ hit.span.stop ≤ p.1.start := by
      intro p hp
      by_cases ho : p.2.owner = k
      · right
        have hm : p.2.hitAt p.1 ∈ hits := by
          rw [← hhits]
          exact List.mem_map_of_mem (List.mem_filter.2 ⟨hp, by simpa using ho⟩)
        exact hfirst _ hm
      · have hm : p ∈ layout.placedAt k := by
          rw [← hold k le_rfl]
          exact List.mem_filter.2 ⟨hp, by simpa using ho⟩
        exact overlaps_eq_false.1 (hfree hit List.mem_cons_self p hm)
    obtain ⟨widest, hwt, hwp⟩ := exists_insert s wider 0 before after
      (by rw [htext k le_rfl, hk, hst])
      (fun p hp => by
        have := hapart' p hp
        rw [hf.span_eq] at this
        simpa [s, hst] using this)
    have hspan : ∀ j ≤ k, ∃ pre span post, wider.placedAt j = pre ++ post ∧
        widest.placedAt j = pre ++ (span, s) :: post ∧ (j = k → span = hit.span) := by
      intro j hj
      obtain ⟨pre, span, post, h1, h2, h3⟩ := hwp j hj 0
      refine ⟨pre, span, post, h1, h2, fun he => ?_⟩
      rw [h3 he, hf.span_eq]
      simp [s, hst]
    have hhit : s.hitAt hit.span = hit := by
      obtain ⟨span, val, lit⟩ := hit
      have h1 := hf.span_eq
      have h2 := hf.value_eq
      have h3 := hf.literal_eq
      dsimp only at h1 h2 h3
      rw [h1, h2, h3]
      rfl
    obtain ⟨pre, span, post, hw, hwst, hs'⟩ := hspan k le_rfl
    obtain rfl := hs' rfl
    -- So the new hit is the first one of its rule.
    have hpre : pre.filter (·.2.owner = k) = [] := by
      refine List.filter_eq_nil_iff.2 fun p hp ho => ?_
      have hlast : p.1.stop ≤ hit.span.start := by
        have := widest.placedFrom_apart k 0
        rw [placedAt] at hwst
        rw [hwst, List.pairwise_append] at this
        exact this.2.2 p hp _ List.mem_cons_self
      have hm : p ∈ wider.placedAt k := hw ▸ List.mem_append_left _ hp
      have hlater : p.2.hitAt p.1 ∈ hits := by
        rw [← hhits]
        exact List.mem_map_of_mem (List.mem_filter.2 ⟨hm, ho⟩)
      have h1 := hfirst _ hlater
      have h2 := (placedFrom_bounds hm).2.1
      have h3 := byteLength_pos hv
      rw [hf.span_eq] at hlast h1
      simp only [Site.hitAt, byteLength_append] at hlast h1
      omega
    refine ⟨widest, fun j hj => (hwt j hj).trans (htext j hj), fun j hj => ?_, ?_, ?_, ?_⟩
    · obtain ⟨pre, span, post, h1, h2, -⟩ := hspan j hj
      rw [← hold j hj, h1, h2, List.filter_append, List.filter_append, List.filter_cons_of_neg]
      simp [s]
    · rw [← hhits, hitsAt, hitsAt, hw, hwst, List.filter_append, hpre, List.nil_append,
        List.filter_cons_of_pos (by simp [s]), List.map_cons, hhit, List.filter_append, hpre,
        List.nil_append]
    · intro p hp ho
      rw [hwst, List.mem_append, List.mem_cons] at hp
      rcases hp with hp | rfl | hp
      · exact hchange p (hw ▸ List.mem_append_left _ hp) ho
      · dsimp only
        rw [hhit]
      · exact hchange p (hw ▸ List.mem_append_right _ hp) ho
    · intro t ht
      obtain ⟨p, hp, rfl⟩ := (mem_sites_iff k).1 ht
      rw [hwst, List.mem_append, List.mem_cons] at hp
      rcases hp with hp | rfl | hp
      · exact hsites _ ((mem_sites_iff k).2 ⟨p, hw ▸ List.mem_append_left _ hp, rfl⟩)
      · exact Or.inr ⟨rfl, hv⟩
      · exact hsites _ ((mem_sites_iff k).2 ⟨p, hw ▸ List.mem_append_right _ hp, rfl⟩)

/-- A layout of the first `k` rules: it has their hits for sites, each with the
change that its rule makes, and it has the texts that they leave. -/
structure Describes (layout : Layout) (set : RuleSet) (text : List Char) (k : Nat) : Prop where
  owners : ∀ s ∈ layout.sites, s.owner < k
  values : ∀ s ∈ layout.sites, s.value ≠ []
  texts : ∀ j ≤ k, (set.draftAt text j).text = layout.textAt j
  claims : ∀ j ≤ k, ∀ span, span ∈ (set.draftAt text j).claims ↔
    ∃ p ∈ layout.placedAt j, p.2.owner < j ∧ p.1 = span
  hits : ∀ j < k, ∀ rule, set.rules[j]? = some rule →
    rule.hits (set.draftAt text j).claims (set.draftAt text j).text = layout.hitsAt j
  changes : ∀ j < k, ∀ rule, set.rules[j]? = some rule → ∀ p ∈ layout.placedAt j,
    p.2.owner = j → p.2.change = set.change? rule (set.draftAt text j).text (p.2.hitAt p.1)

variable {set : RuleSet} {text : List Char}

theorem describes_zero (set : RuleSet) (text : List Char) :
    (last text).Describes set text 0 := by
  refine ⟨by simp [sites], by simp [sites], ?_, ?_, by simp, by simp⟩
  · intro j hj
    rw [Nat.le_zero.1 hj]
    rfl
  · intro j hj span
    rw [Nat.le_zero.1 hj]
    simp [RuleSet.draftAt, placedAt, placedFrom]

/-- The edits of a rule are those of its sites, if these have its changes. -/
theorem editsFrom_eq_edits {rule : Rule} {current : List Char}
    (h : ∀ p ∈ layout.placedAt k, p.2.owner = k →
      p.2.change = set.change? rule current (p.2.hitAt p.1)) :
    layout.editsFrom k 0 = set.edits rule current (layout.hitsAt k) := by
  rw [editsFrom_eq, RuleSet.edits, hitsAt, List.filterMap_map]
  refine List.filterMap_congr fun p hp => ?_
  obtain ⟨hp, ho⟩ := List.mem_filter.1 hp
  rw [Site.edit?, h p hp (by simpa using ho)]
  rfl

/-- The turn of one more rule. -/
theorem Describes.exists_succ {rule : Rule} (h : layout.Describes set text k)
    (hrule : set.rules[k]? = some rule) : ∃ wider : Layout, wider.Describes set text (k + 1) := by
  set draft := set.draftAt text k with hdraft
  have htext : draft.text = layout.textAt k := h.texts k le_rfl
  have hfree : ∀ hit ∈ rule.hits draft.claims draft.text, ∀ p ∈ layout.placedAt k,
      hit.span.overlaps p.1 = false := by
    intro hit hm p hp
    refine overlapsAny_eq_false.1 (Rule.hits_fit hm).2 _ ?_
    exact (h.claims k le_rfl _).2 ⟨p, hp, h.owners _ ((mem_sites_iff k).2 ⟨p, hp, rfl⟩), rfl⟩
  obtain ⟨wider, hwtext, hwold, hwhits, hwchange, hwsites⟩ :=
    exists_extend (set.change? rule draft.text) h.owners (rule.hits draft.claims draft.text)
      (fun hit hm => htext ▸ (Rule.hits_fit hm).1) hfree (rule.hits_apart _ _)
  have howners : ∀ s ∈ wider.sites, s.owner < k + 1 := by
    intro s hs
    rcases hwsites s hs with hs | ⟨hs, -⟩
    · exact (h.owners s hs).trans (Nat.lt_succ_self k)
    · omega
  have hvalues : ∀ s ∈ wider.sites, s.value ≠ [] := by
    intro s hs
    rcases hwsites s hs with hs | ⟨-, hs⟩
    · exact h.values s hs
    · exact hs
  -- Sites of earlier rules are those of the narrower layout.
  have hearlier : ∀ j ≤ k, ∀ p : Span × Site, p.2.owner < k →
      (p ∈ wider.placedAt j ↔ p ∈ layout.placedAt j) := by
    intro j hj p hp
    rw [← hwold j hj, List.mem_filter]
    simp [hp.ne]
  have hedits : set.edits rule draft.text (rule.hits draft.claims draft.text) =
      wider.editsFrom k 0 := by
    rw [editsFrom_eq_edits hwchange, hwhits]
  have hmoved : (wider.placedAt k).map (fun p => (p.1.relocate (wider.editsFrom k 0), p.2)) =
      wider.placedAt (k + 1) :=
    relocate_placedFrom k 0 [] 0 hvalues (by simp) rfl
  refine ⟨wider, howners, hvalues, ?_, ?_, ?_, ?_⟩
  · intro j hj
    rcases Nat.le_succ_iff.1 hj with hj | rfl
    · rw [hwtext j hj, h.texts j hj]
    · rw [RuleSet.draftAt_succ hrule, set.step_eq]
      have := splice_editsFrom k 0 [] wider
      simp only [byteLength_nil, List.nil_append, Nat.add_zero] at this
      rw [← hdraft]
      dsimp only
      rw [hedits, htext, ← hwtext k le_rfl, this]
  · intro j hj span
    rcases Nat.le_succ_iff.1 hj with hj | rfl
    · rw [h.claims j hj]
      constructor
      · rintro ⟨p, hp, ho, rfl⟩
        exact ⟨p, (hearlier j hj p (by omega)).2 hp, ho, rfl⟩
      · rintro ⟨p, hp, ho, rfl⟩
        exact ⟨p, (hearlier j hj p (by omega)).1 hp, ho, rfl⟩
    · have hclaims : ∀ old, old ∈ draft.claims ++ (rule.hits draft.claims draft.text).map (·.span) ↔
          ∃ p ∈ wider.placedAt k, p.1 = old := by
        intro old
        rw [List.mem_append, h.claims k le_rfl, ← hwhits]
        constructor
        · rintro (⟨p, hp, ho, rfl⟩ | hm)
          · exact ⟨p, (hearlier k le_rfl p ho).2 hp, rfl⟩
          · obtain ⟨hit, hhit, rfl⟩ := List.mem_map.1 hm
            rw [hitsAt] at hhit
            obtain ⟨p, hp, rfl⟩ := List.mem_map.1 hhit
            exact ⟨p, (List.mem_filter.1 hp).1, rfl⟩
        · rintro ⟨p, hp, rfl⟩
          have ho := howners p.2 ((mem_sites_iff k).2 ⟨p, hp, rfl⟩)
          rcases Nat.lt_succ_iff_lt_or_eq.1 ho with ho | ho
          · exact Or.inl ⟨p, (hearlier k le_rfl p ho).1 hp, ho, rfl⟩
          · right
            refine List.mem_map.2 ⟨p.2.hitAt p.1, ?_, rfl⟩
            exact List.mem_map_of_mem (List.mem_filter.2 ⟨hp, by simpa using ho⟩)
      rw [RuleSet.draftAt_succ hrule, set.step_eq, ← hdraft]
      dsimp only
      rw [hedits, List.mem_map, ← hmoved]
      constructor
      · rintro ⟨old, hm, rfl⟩
        obtain ⟨p, hp, rfl⟩ := (hclaims old).1 hm
        exact ⟨_, List.mem_map_of_mem hp, howners p.2 ((mem_sites_iff k).2 ⟨p, hp, rfl⟩), rfl⟩
      · rintro ⟨q, hq, -, rfl⟩
        obtain ⟨p, hp, rfl⟩ := List.mem_map.1 hq
        exact ⟨p.1, (hclaims p.1).2 ⟨p, hp, rfl⟩, rfl⟩
  · intro j hj other hother
    rcases Nat.lt_succ_iff_lt_or_eq.1 hj with hj | rfl
    · rw [h.hits j hj other hother, hitsAt, hitsAt, ← hwold j hj.le, List.filter_filter]
      congr 1
      refine List.filter_congr fun p _ => ?_
      by_cases ho : p.2.owner = j
      · simp [ho, hj.ne]
      · simp [ho]
    · obtain rfl : rule = other := Option.some.inj (hrule.symm.trans hother)
      exact hwhits.symm
  · intro j hj other hother p hp ho
    rcases Nat.lt_succ_iff_lt_or_eq.1 hj with hj | rfl
    · exact h.changes j hj other hother p ((hearlier j hj.le p (by omega)).1 hp) ho
    · obtain rfl : rule = other := Option.some.inj (hrule.symm.trans hother)
      exact hwchange p hp ho

/-- The turns of the first rules. -/
theorem exists_describes (set : RuleSet) (text : List Char) : ∀ k ≤ set.rules.length,
    ∃ layout : Layout, layout.Describes set text k := by
  intro k
  induction k with
  | zero => exact fun _ => ⟨last text, describes_zero set text⟩
  | succ k ih =>
    intro hk
    obtain ⟨layout, h⟩ := ih (by omega)
    exact h.exists_succ (List.getElem?_eq_getElem (show k < set.rules.length by omega))

/-- The sites lie apart in the original text, none of them empty. -/
theorem placedAt_zero_inText {p : Span × Site} (hv : ∀ s ∈ layout.sites, s.value ≠ [])
    (h : p ∈ layout.placedAt 0) : p.1.start < p.1.stop ∧ p.1.InText layout.original := by
  obtain ⟨a, b, htext, hp⟩ := exists_of_mem_placedFrom h
  have hpos := byteLength_pos (hv p.2 ((mem_sites_iff 0).2 ⟨p, h, rfl⟩))
  rw [textAt_zero] at htext
  rw [Nat.zero_add] at hp
  rw [hp, htext]
  refine ⟨?_, isBoundary_append _ _, ⟨a ++ p.2.textAt 0, b, by simp, by simp⟩, ?_⟩
  · simp only [Site.textAt_of_le (Nat.zero_le _), byteLength_append]
    omega
  · dsimp only
    omega

end Layout

/-- **A revision is one simultaneous substitution.**  The claims of all rules are
disjoint places of the original text, each owned by one rule; the revised text is
the original one with the changes at these places.  At its turn each rule claims
exactly the places that it owns, those of the rules before it being taken, and it
changes what it owns unless that touches a comment or has no token. -/
theorem revise_eq_simultaneous (set : RuleSet) (text : List Char) :
    ∃ layout : Layout,
      layout.original = text ∧
      layout.revised = (set.revise text).text ∧
      (∀ p ∈ layout.placedAt 0, p.1.start < p.1.stop ∧ p.1.InText text) ∧
      (layout.placedAt 0).Pairwise (fun p q => p.1.stop ≤ q.1.start) ∧
      (∀ s ∈ layout.sites, s.owner < set.rules.length) ∧
      ∀ k rule, set.rules[k]? = some rule →
        let draft := set.draftAt text k
        draft.text = layout.textAt k ∧
        (∀ span, span ∈ draft.claims ↔ ∃ p ∈ layout.placedAt k, p.2.owner < k ∧ p.1 = span) ∧
        rule.hits draft.claims draft.text = layout.hitsAt k ∧
        (∀ p ∈ layout.placedAt k, p.2.owner = k →
          p.2.change = set.change? rule draft.text (p.2.hitAt p.1)) ∧
        ((set.revise text).tallies[k]?).map (·.matched) =
          some (layout.sites.filter (·.owner = k)).length := by
  obtain ⟨layout, h⟩ := Layout.exists_describes set text _ le_rfl
  have horiginal : layout.original = text := by
    rw [← layout.textAt_zero, ← h.texts 0 (Nat.zero_le _)]
    rfl
  refine ⟨layout, horiginal, ?_, fun p hp => ?_, layout.placedFrom_apart 0 0, h.owners, ?_⟩
  · rw [← Layout.textAt_of_forall_lt h.owners, ← h.texts _ le_rfl, RuleSet.revise_text]
  · exact horiginal ▸ Layout.placedAt_zero_inText h.values hp
  · intro k rule hrule
    have hk : k < set.rules.length := (List.getElem?_eq_some_iff.1 hrule).1
    have hhits := h.hits k hk rule hrule
    refine ⟨h.texts k hk.le, h.claims k hk.le, hhits, h.changes k hk rule hrule, ?_⟩
    rw [RuleSet.revise_tally hrule, Option.map_some, RuleSet.step]
    dsimp only
    rw [hhits, Layout.hitsAt, List.length_map, ← layout.map_snd_placedFrom, ← Layout.placedAt,
      List.filter_map, List.length_map]
    rfl

end StyleTokens

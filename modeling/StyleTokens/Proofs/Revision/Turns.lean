/-
The turn of a rule stays within its text.

A rule looks at the values of its matches and at what follows them, copies what
stands between its edits and moves the claims along.  All of this happens at
character boundaries of the text that the rule finds, and the claims that it
leaves are places of the text that it leaves.

* `TokenTable.hasTokens_ofEntries` — no token of a table is blank;
* `RuleSet.ofDrafts_eq_ok_iff` — when drafts make a rule set, and which one;
* `RuleSet.edits_fit` — the edits of a rule fit its text;
* `Draft.Sound` — the claims are places of the text, disjoint and not empty;
* `Draft.Sound.step`, `RuleSet.sound_draftAt` — every turn keeps it;
* `RuleSet.turns_sound` — the turns of a whole revision.
-/
import StyleTokens.Proofs.Revision.Edits
import StyleTokens.Proofs.Revision.Substitutions
import StyleTokens.Proofs.Table.Entries

namespace StyleTokens

open Text Layout

/-! ### Tokens are not blank -/

namespace TokenTable

/-- A table whose tokens are not blank. -/
def HasTokens (table : TokenTable) : Prop :=
  ∀ row ∈ table.rows, allBlank row.2.toList = false

variable {table : TokenTable}

theorem HasTokens.lookup (h : table.HasTokens) {category : Category} {literal : List Char}
    {token : String} (ht : table.lookup? category literal = some token) :
    allBlank token.toList = false :=
  h _ (lookup?_eq_some_iff.1 ht)

/-- No token of a table is blank: entries with blank tokens are refused. -/
theorem hasTokens_ofEntries {entries : List TokenEntry} (h : ofEntries entries = .ok table) :
    table.HasTokens := by
  intro row hrow
  obtain ⟨entry, -, hblank, rfl⟩ := exists_entry_of_ofEntries h hrow
  rw [TokenEntry.isBlank, Bool.or_eq_false_iff] at hblank
  exact hblank.2

end TokenTable

/-! ### Rule sets that are made of drafts -/

namespace RuleSet

variable {name : String} {drafts : List RuleDraft} {rules : List Rule} {table : TokenTable}
  {set : RuleSet}

/-- No name that stands once is repeated. -/
theorem firstRepeated?_eq_none_of_nodup {names earlier : List String} (h : names.Nodup)
    (hfresh : ∀ name ∈ names, name ∉ earlier) : firstRepeated? earlier names = none := by
  induction names generalizing earlier with
  | nil => rfl
  | cons name names ih =>
    obtain ⟨hname, hnames⟩ := List.nodup_cons.1 h
    rw [firstRepeated?, if_neg (hfresh name List.mem_cons_self)]
    refine ih hnames fun other ho hin => ?_
    rcases List.mem_cons.1 hin with rfl | hin
    · exact hname ho
    · exact hfresh other (List.mem_cons_of_mem _ ho) hin

theorem ofRules_eq_ok_iff : ofRules name rules table = .ok set ↔
    set.name = name ∧ set.rules = rules ∧ set.table = table := by
  rw [ofRules]
  constructor
  · intro h
    split at h
    · cases h
    · split at h
      · cases h
      · cases h
        exact ⟨rfl, rfl, rfl⟩
  · rintro ⟨rfl, rfl, rfl⟩
    rw [dif_neg set.rules_ne_nil]
    split
    · next id hid =>
      rw [firstRepeated?_eq_none_of_nodup set.distinct (by simp)] at hid
      cases hid
    · rfl

/-- A rule set is made of drafts if its rules are those of the drafts. -/
theorem ofDrafts_eq_ok_iff : ofDrafts name drafts table = .ok set ↔
    drafts.mapM Rule.ofDraft = .ok set.rules ∧ set.name = name ∧ set.table = table := by
  rw [ofDrafts]
  cases hrules : drafts.mapM Rule.ofDraft with
  | error fault =>
    constructor
    · intro h
      cases h
    · rintro ⟨h, -⟩
      cases h
  | ok rules =>
    refine Iff.trans ofRules_eq_ok_iff ?_
    rw [Except.ok.injEq, eq_comm (a := rules)]
    tauto

/-- A rule set has the table that it was made with. -/
theorem table_ofDrafts (h : ofDrafts name drafts table = .ok set) : set.table = table :=
  (ofDrafts_eq_ok_iff.1 h).2.2

end RuleSet

/-- What replaces a value is not empty. -/
theorem Substitution.text_ne_nil {table : TokenTable} (htable : table.HasTokens) {rule : Rule}
    {value : List Char} (hr : (ofValue table rule value).replaced ≠ 0) :
    (ofValue table rule value).text ≠ [] := by
  obtain ⟨first, ⟨part, treatment⟩, token, rest, hparts, -, htoken⟩ := exists_first hr
  have hmem : (part, treatment) ∈ (ofValue table rule value).parts := by
    rw [hparts]
    simp
  simp only [ofValue, List.mem_map, Prod.mk.injEq] at hmem
  obtain ⟨_, -, rfl, rfl⟩ := hmem
  obtain ⟨-, word, hword, rfl⟩ := Treatment.ofPart_token? htoken
  have hne : word.toList ≠ [] := fun hnil => by
    have := htable.lookup hword
    rw [hnil] at this
    cases this
  rw [text, hparts]
  simp [htoken, hne]

/-! ### The edits of a rule -/

/-- The value of a hit lies in its match. -/
theorem Hit.Fits.within {hit : Hit} {before lead value trail after : List Char}
    (h : hit.Fits before lead value trail after) :
    hit.span.start ≤ hit.value.start ∧ hit.value.start < hit.value.stop ∧
      hit.value.stop ≤ hit.span.stop := by
  have := byteLength_pos h.value_ne_nil
  rw [h.span_eq, h.value_eq]
  simp only [byteLength_append]
  omega

/-- The match of a hit lies in the text. -/
theorem Hit.Fits.inText {hit : Hit} {before lead value trail after : List Char}
    (h : hit.Fits before lead value trail after) :
    hit.span.InText (before ++ (lead ++ (value ++ trail) ++ after)) := by
  rw [h.span_eq]
  refine ⟨isBoundary_append _ _, ⟨before ++ (lead ++ (value ++ trail)), after, ?_, ?_⟩, ?_⟩
  · simp only [List.append_assoc]
  · rw [byteLength_append]
  · dsimp only
    omega

/-- Two hits of a rule are the same or lie apart. -/
theorem Rule.hits_same_or_apart (rule : Rule) (claims : List Span) (text : List Char) :
    ∀ x ∈ rule.hits claims text, ∀ y ∈ rule.hits claims text,
      x.span = y.span ∨ x.span.overlaps y.span = false := by
  have hordered : (rule.hits claims text).Pairwise fun x y =>
      x.span = y.span ∨ x.span.overlaps y.span = false :=
    (rule.hits_apart claims text).imp fun h => Or.inr (overlaps_eq_false.2 (Or.inr h))
  have hflipped : (rule.hits claims text).Pairwise (flip fun x y =>
      x.span = y.span ∨ x.span.overlaps y.span = false) :=
    (rule.hits_apart claims text).imp fun h => Or.inr (overlaps_eq_false.2 (Or.inl h))
  have hsame : ∀ x ∈ rule.hits claims text, x.span = x.span ∨ x.span.overlaps x.span = false :=
    fun _ _ => Or.inl rfl
  exact fun x hx y hy => hordered.forall_of_forall_of_flip hsame hflipped hx hy

namespace RuleSet

variable {set : RuleSet} {rule : Rule}

theorem exists_hit_of_mem_edits {text : List Char} {hits : List Hit} {edit : Edit}
    (h : edit ∈ set.edits rule text hits) :
    ∃ hit ∈ hits, edit.span = hit.value ∧ set.change? rule text hit = some edit.text := by
  obtain ⟨hit, hm, he⟩ := List.mem_filterMap.1 h
  obtain ⟨new, hnew, rfl⟩ := Option.map_eq_some_iff.1 he
  exact ⟨hit, hm, rfl, hnew⟩

/-- No edit of a rule brings in nothing. -/
theorem text_ne_nil_of_mem_edits (htable : set.table.HasTokens) {text : List Char}
    {hits : List Hit} {edit : Edit} (h : edit ∈ set.edits rule text hits) : edit.text ≠ [] := by
  obtain ⟨hit, -, -, hnew⟩ := exists_hit_of_mem_edits h
  rw [change?] at hnew
  split at hnew
  · cases hnew
  · next hskip =>
    simp only [Bool.or_eq_true, decide_eq_true_eq, not_or] at hskip
    rw [← Option.some.inj hnew]
    exact Substitution.text_ne_nil htable hskip.2

/-- The edits of hits that follow one another fit the text, from any place on that
comes before them. -/
theorem edits_fit_of_apart (set : RuleSet) (rule : Rule) (text : List Char) :
    ∀ (hits : List Hit) {a b : List Char},
    (∀ hit ∈ hits, byteLength a ≤ hit.span.start ∧ ∃ before lead value trail after,
      a ++ b = before ++ (lead ++ (value ++ trail) ++ after) ∧
      hit.Fits before lead value trail after) →
    hits.Pairwise (fun x y => x.span.stop ≤ y.span.start) →
    Edit.Fits (byteLength a) (set.edits rule text hits) b := by
  intro hits
  induction hits with
  | nil => exact fun _ _ => .nil _ _
  | cons hit hits ih =>
    intro a b hfit hapart
    obtain ⟨hfirst, hrest⟩ := List.pairwise_cons.1 hapart
    have hlater := fun other hm => hfit other (List.mem_cons_of_mem hit hm)
    obtain ⟨hstart, before, lead, value, trail, after, htext, hf⟩ := hfit hit List.mem_cons_self
    cases hc : set.change? rule text hit with
    | none =>
      rw [edits, List.filterMap_cons_none (by rw [hc]; rfl)]
      exact ih hlater hrest
    | some new =>
      rw [edits, List.filterMap_cons_some (by rw [hc]; rfl)]
      rw [hf.span_eq] at hstart
      obtain ⟨u, rfl, rfl⟩ := append_eq_append_of_le htext hstart
      have key := ih (a := a ++ (u ++ lead) ++ value) (b := trail ++ after) (fun other hm => by
        obtain ⟨-, h⟩ := hlater other hm
        refine ⟨?_, by simpa using h⟩
        have := hfirst other hm
        rw [hf.span_eq] at this
        simp only [byteLength_append] at this ⊢
        omega) hrest
      have hvalue : hit.value = ⟨byteLength a + byteLength (u ++ lead),
          byteLength a + byteLength (u ++ lead) + byteLength value⟩ := by
        rw [hf.value_eq]
        simp only [byteLength_append, Nat.add_assoc]
      rw [hvalue, show u ++ (lead ++ (value ++ trail) ++ after) =
        (u ++ lead) ++ (value ++ (trail ++ after)) by simp]
      refine .cons hf.value_ne_nil ?_
      simpa [Nat.add_assoc, edits] using key

/-- The edits of a rule fit its text. -/
theorem edits_fit (set : RuleSet) (rule : Rule) (claims : List Span) (text : List Char) :
    Edit.Fits 0 (set.edits rule text (rule.hits claims text)) text :=
  edits_fit_of_apart set rule text (a := []) _
    (fun _ hm => ⟨Nat.zero_le _, (Rule.hits_fit hm).1⟩) (rule.hits_apart _ _)

/-- No edit reaches over the end of a span that is a match or apart from all matches. -/
theorem clear_edits {text : List Char} {claims : List Span} {span : Span}
    (h : ∀ hit ∈ rule.hits claims text, hit.span = span ∨ hit.span.overlaps span = false)
    (hordered : span.start ≤ span.stop) :
    Edit.Clear (set.edits rule text (rule.hits claims text)) span.start ∧
      Edit.Clear (set.edits rule text (rule.hits claims text)) span.stop := by
  have hone : ∀ edit ∈ set.edits rule text (rule.hits claims text),
      span.start ≤ edit.span.start ∧ edit.span.stop ≤ span.stop ∨
        edit.span.stop ≤ span.start ∨ span.stop ≤ edit.span.start := by
    intro edit he
    obtain ⟨hit, hm, heq, -⟩ := exists_hit_of_mem_edits he
    obtain ⟨_, _, _, _, _, -, hf⟩ := (Rule.hits_fit hm).1
    have hin := hf.within
    rw [heq]
    rcases h hit hm with rfl | hfree
    · exact Or.inl ⟨hin.1, hin.2.2⟩
    · have := overlaps_eq_false.1 hfree
      omega
  constructor <;> intro edit he <;> have := hone edit he <;> omega

end RuleSet

/-! ### Claims -/

/-- The claims are places of the text, none of them empty and no two overlapping. -/
structure Draft.Sound (draft : Draft) : Prop where
  apart : draft.claims.Pairwise fun a b => a.overlaps b = false
  nonempty : ∀ claim ∈ draft.claims, claim.start < claim.stop
  inText : ∀ claim ∈ draft.claims, claim.InText draft.text

namespace Draft.Sound

variable {set : RuleSet} {draft : Draft}

/-- What a rule claims, and what was claimed before, are places that no edit of the rule
reaches over. -/
theorem ready (h : draft.Sound) (set : RuleSet) (rule : Rule) {span : Span}
    (hm : span ∈ draft.claims ++ (rule.hits draft.claims draft.text).map (·.span)) :
    span.start < span.stop ∧ span.InText draft.text ∧
      Edit.Clear (set.edits rule draft.text (rule.hits draft.claims draft.text)) span.start ∧
      Edit.Clear (set.edits rule draft.text (rule.hits draft.claims draft.text)) span.stop := by
  rcases List.mem_append.1 hm with hm | hm
  · refine ⟨h.nonempty span hm, h.inText span hm, RuleSet.clear_edits (fun hit hh => Or.inr ?_)
      (h.nonempty span hm).le⟩
    exact overlapsAny_eq_false.1 (Rule.hits_fit hh).2 span hm
  · obtain ⟨hit, hh, rfl⟩ := List.mem_map.1 hm
    obtain ⟨before, lead, value, trail, after, htext, hf⟩ := (Rule.hits_fit hh).1
    have hlt : hit.span.start < hit.span.stop := by
      have := hf.within
      omega
    exact ⟨hlt, htext ▸ hf.inText, RuleSet.clear_edits
      (fun other ho => rule.hits_same_or_apart _ _ other ho hit hh) hlt.le⟩

/-- What a rule claims overlaps nothing that was claimed before. -/
theorem apart_of_hits (h : draft.Sound) (rule : Rule) :
    (draft.claims ++ (rule.hits draft.claims draft.text).map (·.span)).Pairwise
      fun a b => a.overlaps b = false := by
  refine List.pairwise_append.2 ⟨h.apart, List.pairwise_map.2 ?_, fun claim hc span hs => ?_⟩
  · exact (rule.hits_apart _ _).imp fun hab => overlaps_eq_false.2 (Or.inr hab)
  · obtain ⟨hit, hh, rfl⟩ := List.mem_map.1 hs
    exact overlaps_eq_false.2
      (overlaps_eq_false.1 (overlapsAny_eq_false.1 (Rule.hits_fit hh).2 claim hc)).symm

/-- The turn of a rule keeps the claims sound. -/
theorem step (h : draft.Sound) (htable : set.table.HasTokens) (rule : Rule) :
    (set.step rule draft).1.Sound := by
  set claimed := draft.claims ++ (rule.hits draft.claims draft.text).map (·.span) with hclaimed
  set edits := set.edits rule draft.text (rule.hits draft.claims draft.text) with hedits
  have hfits : Edit.Fits 0 edits draft.text := set.edits_fit rule draft.claims draft.text
  have hmoved : ∀ span ∈ claimed, (span.relocate edits).InText (splice 0 edits draft.text) ∧
      (span.relocate edits).start < (span.relocate edits).stop := by
    intro span hm
    obtain ⟨hlt, hin, hstart, hstop⟩ := h.ready set rule hm
    obtain ⟨hin', hlt'⟩ := hfits.relocate_span hin hstart hstop
    exact ⟨hin', hlt' (fun e he => RuleSet.text_ne_nil_of_mem_edits htable he) hlt⟩
  -- The stretch between two places is moved like a place, so its ends stay in order.
  have hmono : ∀ a ∈ claimed, ∀ b ∈ claimed, a.stop ≤ b.start →
      (a.relocate edits).stop ≤ (b.relocate edits).start := by
    intro a ha b hb hle
    obtain ⟨-, hina, -, hstop⟩ := h.ready set rule ha
    obtain ⟨-, hinb, hstart, -⟩ := h.ready set rule hb
    have hbetween : Span.InText ⟨a.stop, b.start⟩ draft.text := ⟨hina.stop, hinb.start, hle⟩
    exact (hfits.relocate_span hbetween hstop hstart).1.ordered
  rw [RuleSet.step_eq]
  dsimp only
  rw [← hedits, ← hclaimed]
  refine ⟨?_, ?_, ?_⟩
  · refine List.pairwise_map.2 ((h.apart_of_hits rule).imp_of_mem fun {a b} ha hb hab => ?_)
    rcases overlaps_eq_false.1 hab with hle | hle
    · exact overlaps_eq_false.2 (Or.inl (hmono b hb a ha hle))
    · exact overlaps_eq_false.2 (Or.inr (hmono a ha b hb hle))
  · intro claim hc
    obtain ⟨span, hm, rfl⟩ := List.mem_map.1 hc
    exact (hmoved span hm).2
  · intro claim hc
    obtain ⟨span, hm, rfl⟩ := List.mem_map.1 hc
    exact (hmoved span hm).1

end Draft.Sound

namespace RuleSet

variable {set : RuleSet}

/-- Before each turn and after the last one the claims are sound. -/
theorem sound_draftAt (htable : set.table.HasTokens) (text : List Char) :
    ∀ k, (set.draftAt text k).Sound := by
  intro k
  induction k with
  | zero => exact ⟨List.Pairwise.nil, by simp [draftAt], by simp [draftAt]⟩
  | succ k ih =>
    rw [draftAt]
    split
    · exact ih.step htable _
    · exact ih

/-- A turn of a rule that stays within the text of a draft. -/
structure TurnSound (set : RuleSet) (rule : Rule) (draft : Draft) : Prop where
  /-- The values that the rule finds, and so what follows them, are parts of the text. -/
  values : ∀ found ∈ rule.program.occurrences draft.text, ∀ value,
    found.capture? valueGroup = some value → value.InText draft.text
  /-- What is copied between the edits are parts of the text. -/
  copied : ∀ span ∈ Edit.copied (byteLength draft.text) 0
    (set.edits rule draft.text (rule.hits draft.claims draft.text)), span.InText draft.text
  /-- The new text is what was copied and what the edits bring in, in turn. -/
  woven : (set.step rule draft).1.text =
    Edit.weave
      ((Edit.copied (byteLength draft.text) 0
        (set.edits rule draft.text (rule.hits draft.claims draft.text))).map (slice · draft.text))
      ((set.edits rule draft.text (rule.hits draft.claims draft.text)).map (·.text))
  /-- Each edit takes out something and brings in something. -/
  positive : ∀ edit ∈ set.edits rule draft.text (rule.hits draft.claims draft.text),
    0 < edit.span.length ∧ 0 < byteLength edit.text
  /-- The edits up to an offset take out no more than there is. -/
  room : ∀ offset, lost ((set.edits rule draft.text (rule.hits draft.claims draft.text)).filter
    (·.span.stop ≤ offset)) ≤ offset

/-- The turn of a rule stays within the text. -/
theorem turnSound (htable : set.table.HasTokens) (rule : Rule) (draft : Draft) :
    set.TurnSound rule draft := by
  have hfits := set.edits_fit rule draft.claims draft.text
  refine ⟨fun found hf value hv => ?_, hfits.copied_inText [] rfl, ?_,
    fun edit he => ?_, fun offset => ?_⟩
  · exact ((rule.program.occurrences_placed hf).captures _ value (Rule.mem_of_capture? hv)).2.2
  · rw [step_eq]
    exact hfits.splice_eq_weave [] rfl
  · refine ⟨?_, byteLength_pos (text_ne_nil_of_mem_edits htable he)⟩
    have := hfits.bounds he
    rw [Span.length]
    omega
  · have := hfits.lost_filter_le offset
    omega

/-- **The turns of the rules stay within their texts**, for every rule set that can be
made and every text, and before the first turn and after each one the claims are
places of the text, none of them empty and no two overlapping. -/
theorem turns_sound {entries : List TokenEntry} {table : TokenTable} {name : String}
    {drafts : List RuleDraft} {set : RuleSet} (htable : TokenTable.ofEntries entries = .ok table)
    (hset : ofDrafts name drafts table = .ok set) (text : List Char) :
    (∀ k rule, set.rules[k]? = some rule → set.TurnSound rule (set.draftAt text k)) ∧
      ∀ k, (set.draftAt text k).Sound := by
  have htokens : set.table.HasTokens := by
    rw [table_ofDrafts hset]
    exact TokenTable.hasTokens_ofEntries htable
  exact ⟨fun k rule _ => set.turnSound htokens rule _, set.sound_draftAt htokens text⟩

end RuleSet

end StyleTokens

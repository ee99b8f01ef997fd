/-
A single rule replaces exactly what it should.

The text is cut into stretches, each of which ends with a value that the rule
replaces, and a last stretch where it replaces nothing.  Which values these are is
told by the matches of the pattern alone, one by one.

* `Rule.Cuts` — the pieces of a value: all of it, or its runs;
* `RuleSet.tokenOf?` — the token of a piece;
* `RuleSet.Replaces` — when the value of a match is replaced;
* `RuleSet.edits_eq_filterMap` — the edits of a single rule, match by match;
* `RuleSet.apply_exact` — the text and the count after a single rule.
-/
import StyleTokens.Proofs.Revision.Turns

namespace StyleTokens

open Text

/-! ### Stretches of a text -/

/-- A stretch of text that ends with a value which is replaced. -/
structure Stretch where
  /-- What stands before the value and stays. -/
  kept : List Char
  value : List Char

namespace Stretch

/-- The spans of the values, where the first stretch begins at an offset. -/
def spansFrom : (offset : Nat) → List Stretch → List Span
  | _, [] => []
  | offset, s :: rest =>
    let start := offset + byteLength s.kept
    let stop := start + byteLength s.value
    ⟨start, stop⟩ :: spansFrom stop rest

/-- The text that stretches make up when each value is replaced by another text. -/
def joined (f : List Char → List Char) (stretches : List Stretch) : List Char :=
  (stretches.map fun s => s.kept ++ f s.value).flatten

theorem joined_cons (f : List Char → List Char) (s : Stretch) (stretches : List Stretch) :
    joined f (s :: stretches) = s.kept ++ (f s.value ++ joined f stretches) := by
  rw [joined, List.map_cons, List.flatten_cons, ← joined, List.append_assoc]

end Stretch

/-- Edits that fit cut their text into stretches.  `f` is what they make of a value. -/
theorem Edit.Fits.exists_stretches {offset : Nat} {edits : List Edit} {text : List Char}
    (h : Edit.Fits offset edits text) (f : List Char → List Char) :
    ∀ pre : List Char, byteLength pre = offset →
    (∀ e ∈ edits, e.text = f (slice e.span (pre ++ text))) →
    ∃ stretches tail, text = Stretch.joined id stretches ++ tail ∧
      splice offset edits text = Stretch.joined f stretches ++ tail ∧
      Stretch.spansFrom offset stretches = edits.map (·.span) ∧
      stretches.map (·.value) = edits.map fun e => slice e.span (pre ++ text) := by
  induction h with
  | nil offset text => exact fun _ _ _ => ⟨[], text, rfl, rfl, rfl, rfl⟩
  | @cons offset u v new rest edits _ _ ih =>
    rintro pre rfl hf
    obtain ⟨hnew, hrest⟩ := List.forall_mem_cons.1 hf
    have hpre : pre ++ (u ++ (v ++ rest)) = (pre ++ u) ++ (v ++ rest) := by simp
    have hv : slice ⟨byteLength pre + byteLength u,
        byteLength pre + byteLength u + byteLength v⟩ (pre ++ (u ++ (v ++ rest))) = v := by
      rw [hpre, ← byteLength_append, slice_append]
    obtain ⟨stretches, tail, htext, hspliced, hspans, hvalues⟩ := ih (pre ++ (u ++ v))
      (by simp [Nat.add_assoc]) (by simpa using hrest)
    refine ⟨⟨u, v⟩ :: stretches, tail, ?_, ?_, ?_, ?_⟩
    · rw [Stretch.joined_cons, id, List.append_assoc, List.append_assoc, ← htext]
    · dsimp only at hnew
      rw [Layout.splice_cons, hspliced, Stretch.joined_cons, hnew, hv]
      simp only [List.append_assoc]
    · rw [Stretch.spansFrom, hspans, List.map_cons]
    · rw [List.map_cons, List.map_cons, hvalues, hv]
      simp only [List.append_assoc]

/-! ### What a rule makes of a value -/

namespace Rule

/-- The pieces in which a rule looks at a value. -/
def pieces (rule : Rule) (value : List Char) : List (List Char) :=
  if rule.splitValues then runs value else [value]

/-- What the pieces are: the runs of the value if it is a list, and else all of it. -/
def Cuts (rule : Rule) (value : List Char) (pieces : List (List Char)) : Prop :=
  if rule.splitValues then AreRuns value pieces else pieces = [value]

theorem cuts_iff {rule : Rule} {value : List Char} {pieces : List (List Char)} :
    rule.Cuts value pieces ↔ pieces = rule.pieces value := by
  rw [Cuts, Rule.pieces]
  split
  · exact areRuns_iff
  · exact Iff.rfl

end Rule

namespace RuleSet

/-- The token of a piece, if it is not white space and has one. -/
def tokenOf? (set : RuleSet) (rule : Rule) (piece : List Char) : Option (List Char) :=
  if allBlank piece then none else (set.table.lookup? rule.category piece).map String.toList

/-- A value with tokens in place of the pieces that have one. -/
def rewritten (set : RuleSet) (rule : Rule) (value : List Char) : List Char :=
  ((rule.pieces value).map fun piece => (set.tokenOf? rule piece).getD piece).flatten

/-- The number of pieces that have a token. -/
def tokens (set : RuleSet) (rule : Rule) (value : List Char) : Nat :=
  (rule.pieces value).countP fun piece => (set.tokenOf? rule piece).isSome

/-- When a rule replaces a value, in a match of a text: the value is not blank, what
follows it ends a value, the match overlaps no comment and some piece of the value
has a token. -/
structure Replaces (set : RuleSet) (rule : Rule) (text : List Char) (found : Match)
    (value : Span) : Prop where
  solid : allBlank (slice value text) = false
  ended : endsValue (dropBytes value.stop text).head? = true
  free : ∀ comment ∈ Comment.spans text, found.span.overlaps comment = false
  mapped : ∃ piece ∈ rule.pieces (slice value text), (set.tokenOf? rule piece).isSome

instance (set : RuleSet) (rule : Rule) (text : List Char) (found : Match) (value : Span) :
    Decidable (set.Replaces rule text found value) :=
  decidable_of_iff (allBlank (slice value text) = false ∧
    endsValue (dropBytes value.stop text).head? = true ∧
    (∀ comment ∈ Comment.spans text, found.span.overlaps comment = false) ∧
    ∃ piece ∈ rule.pieces (slice value text), (set.tokenOf? rule piece).isSome)
    ⟨fun ⟨h1, h2, h3, h4⟩ => ⟨h1, h2, h3, h4⟩, fun ⟨h1, h2, h3, h4⟩ => ⟨h1, h2, h3, h4⟩⟩

variable {set : RuleSet} {rule : Rule}

theorem token?_ofPart (set : RuleSet) (rule : Rule) (piece : List Char) :
    (Treatment.ofPart set.table rule.category piece).token? = set.tokenOf? rule piece := by
  rw [Treatment.ofPart, tokenOf?]
  split
  · rfl
  · cases set.table.lookup? rule.category piece with
    | some token => rfl
    | none =>
      dsimp only
      split <;> rfl

theorem text_ofValue (set : RuleSet) (rule : Rule) (value : List Char) :
    (Substitution.ofValue set.table rule value).text = set.rewritten rule value := by
  rw [Substitution.ofValue, Substitution.text, rewritten, List.map_map, ← Rule.pieces]
  simp only [Function.comp_def, token?_ofPart]

theorem replaced_ofValue (set : RuleSet) (rule : Rule) (value : List Char) :
    (Substitution.ofValue set.table rule value).replaced = set.tokens rule value := by
  rw [Substitution.ofValue, Substitution.replaced, tokens, ← Rule.pieces, List.filterMap_map]
  simp only [Function.comp_def, token?_ofPart]
  rw [List.length_filterMap_eq_countP]

theorem tokens_ne_zero_iff {value : List Char} : set.tokens rule value ≠ 0 ↔
    ∃ piece ∈ rule.pieces value, (set.tokenOf? rule piece).isSome := by
  rw [tokens, ← Nat.pos_iff_ne_zero, List.countP_pos_iff]

/-- What a single rule puts in place of the value of a hit. -/
theorem change?_eq_some_iff {text : List Char} {hit : Hit} {new : List Char} :
    set.change? rule text hit = some new ↔
      (∀ comment ∈ Comment.spans text, hit.span.overlaps comment = false) ∧
      set.tokens rule hit.literal ≠ 0 ∧ new = set.rewritten rule hit.literal := by
  rw [change?, ← overlapsAny_eq_false, ← replaced_ofValue, ← text_ofValue]
  split
  · next h =>
    simp only [Bool.or_eq_true, decide_eq_true_eq] at h
    constructor
    · intro hn
      cases hn
    · rintro ⟨hfree, htokens, -⟩
      rcases h with h | h
      · rw [hfree] at h
        cases h
      · exact absurd h htokens
  · next h =>
    simp only [Bool.or_eq_true, decide_eq_true_eq, not_or, Bool.not_eq_true] at h
    rw [Option.some.injEq]
    constructor
    · exact fun hn => ⟨h.1, h.2, hn.symm⟩
    · rintro ⟨-, -, rfl⟩
      rfl

/-- The edits of a single rule, match by match. -/
theorem edits_eq_filterMap (set : RuleSet) (rule : Rule) (text : List Char) :
    set.edits rule text (rule.hits [] text) =
      (rule.program.occurrences text).filterMap fun found =>
        ((found.capture? valueGroup).filter fun value => set.Replaces rule text found value).map
          fun value => ⟨value, set.rewritten rule (slice value text)⟩ := by
  rw [edits, Rule.hits_eq, List.filterMap_filterMap]
  refine List.filterMap_congr fun found _ => Option.ext fun edit => ?_
  simp only [Option.bind_eq_some_iff, Option.map_eq_some_iff, Option.filter_eq_some_iff,
    decide_eq_true_eq, Rule.hitOf?_eq_some_iff, change?_eq_some_iff]
  constructor
  · rintro ⟨_, ⟨value, hvalue, rfl, hsolid, -, hended⟩, new, ⟨hfree, htokens, rfl⟩, rfl⟩
    exact ⟨value, ⟨hvalue, ⟨hsolid, hended, hfree, tokens_ne_zero_iff.1 htokens⟩⟩, rfl⟩
  · rintro ⟨value, ⟨hvalue, hr⟩, rfl⟩
    exact ⟨_, ⟨value, hvalue, rfl, hr.solid, rfl, hr.ended⟩, _,
      ⟨hr.free, tokens_ne_zero_iff.2 hr.mapped, rfl⟩, rfl⟩

/-- The literals that a rule replaces are those of its edits. -/
theorem total_replaced (set : RuleSet) (rule : Rule) (text : List Char) (hits : List Hit)
    (h : ∀ hit ∈ hits, hit.literal = slice hit.value text) :
    Count.total ((((hits.filter (!·.span.overlapsAny (Comment.spans text))).map fun hit =>
      (hit, Substitution.ofValue set.table rule hit.literal)).map (·.2.replaced))) =
      Count.total
        ((set.edits rule text hits).map fun e => set.tokens rule (slice e.span text)) := by
  induction hits with
  | nil => rfl
  | cons hit hits ih =>
    obtain ⟨hhit, hhits⟩ := List.forall_mem_cons.1 h
    specialize ih hhits
    rw [edits, List.filterMap_cons, ← edits, change?, replaced_ofValue]
    by_cases hc : hit.span.overlapsAny (Comment.spans text)
    · simpa [hc] using ih
    · rw [hhit]
      by_cases ht : set.tokens rule (slice hit.value text) = 0
      · simpa [hc, ht, hhit, replaced_ofValue, Count.total] using ih
      · simpa [hc, ht, hhit, replaced_ofValue, Count.total] using ih

/-- **A single rule replaces exactly what it should.**  The text is cut into stretches;
the values that end them are the values of the matches that meet the conditions, in
order and none left out.  In each value the pieces that have a token are exchanged for
it, and nothing else is changed; the count is the number of these pieces. -/
theorem apply_exact (set : RuleSet) (rule : Rule) (text : List Char) :
    ∃ stretches tail,
      text = Stretch.joined id stretches ++ tail ∧
      (set.apply rule text).1 = Stretch.joined (set.rewritten rule) stretches ++ tail ∧
      Stretch.spansFrom 0 stretches = ((rule.program.occurrences text).filterMap fun found =>
        (found.capture? valueGroup).filter fun value => set.Replaces rule text found value) ∧
      (set.apply rule text).2 =
        Count.total (stretches.map fun stretch => set.tokens rule stretch.value) ∧
      ∀ stretch ∈ stretches, rule.Cuts stretch.value (rule.pieces stretch.value) := by
  set edits := set.edits rule text (rule.hits [] text) with hedits
  have hmatches := set.edits_eq_filterMap rule text
  rw [← hedits] at hmatches
  have hnew : ∀ e ∈ edits, e.text = set.rewritten rule (slice e.span text) := by
    intro e he
    rw [hmatches] at he
    obtain ⟨found, -, he⟩ := List.mem_filterMap.1 he
    obtain ⟨value, -, rfl⟩ := Option.map_eq_some_iff.1 he
    rfl
  obtain ⟨stretches, tail, htext, hsplice, hspans, hvalues⟩ :=
    (set.edits_fit rule [] text).exists_stretches (set.rewritten rule) [] rfl hnew
  refine ⟨stretches, tail, htext, ?_, ?_, ?_, fun _ _ => Rule.cuts_iff.2 rfl⟩
  · have hstep := congrArg Draft.text (set.step_eq rule ⟨text, []⟩)
    exact hstep.trans hsplice
  · rw [hspans, ← hedits, hmatches, List.map_filterMap]
    refine List.filterMap_congr fun found _ => ?_
    rw [Option.map_map]
    exact Option.map_id'
  · have hcount := set.total_replaced rule text (rule.hits [] text) fun hit hm => by
      obtain ⟨found, -, hh⟩ := List.mem_filterMap.1 (Rule.hits_eq ▸ hm)
      obtain ⟨value, -, rfl, -⟩ := Rule.hitOf?_eq_some_iff.1 hh
      rfl
    have hstretches : stretches.map (fun s => set.tokens rule s.value) =
        edits.map fun e => set.tokens rule (slice e.span text) := by
      have := congrArg (List.map (set.tokens rule)) hvalues
      rwa [List.map_map, List.map_map] at this
    rw [hstretches, ← hcount]
    rfl

end RuleSet

end StyleTokens

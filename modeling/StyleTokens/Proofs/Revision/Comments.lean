/-
Comments survive a revision.

Rules leave what touches a comment alone, but each of them finds the comments
anew, in the text that the rules before it left.  So that all of them see the
same comments, an exchange must neither complete an opener or closer with what
stands beside it, nor open a comment itself, nor take the end of a line away.
Tokens that are CSS variables do none of this where a value does not begin with
white space.

* `Comment.Alike` — two texts have the same comments behind a common beginning;
* `Substitution.alike` — a value and what a rule makes of it;
* `Layout.alike_succ` — the texts before and after the turn of a rule;
* `slices_revise` — the comments of a text and of its revision.

Design notes: within one turn, the exchanges are followed from the last one to
the first, so that each of them is made behind the original text.
-/
import StyleTokens.Proofs.Comment.Scan
import StyleTokens.Proofs.Revision.Simultaneous
import StyleTokens.Proofs.Table.Entries
import StyleTokens.Proofs.Text.Runs

namespace StyleTokens

open Text

namespace Comment

/-- Behind `pre`, two texts have the same comments to show, and they leave the
same places in `pre` free. -/
structure Alike (pre first second : List Char) : Prop where
  slices_eq : slices (pre ++ second) = slices (pre ++ first)
  freeOf_iff : ∀ start stop, stop ≤ byteLength pre →
    (FreeOf (spans (pre ++ second)) start stop ↔ FreeOf (spans (pre ++ first)) start stop)

namespace Alike

variable {pre first second third : List Char}

theorem refl (pre text : List Char) : Alike pre text text :=
  ⟨rfl, fun _ _ _ => Iff.rfl⟩

theorem trans (h : Alike pre first second) (h' : Alike pre second third) :
    Alike pre first third :=
  ⟨h'.slices_eq.trans h.slices_eq, fun start stop hle =>
    (h'.freeOf_iff start stop hle).trans (h.freeOf_iff start stop hle)⟩

/-- What stands in front of both texts may count as part of them. -/
theorem of_append {front : List Char} (h : Alike (pre ++ front) first second) :
    Alike pre (front ++ first) (front ++ second) := by
  obtain ⟨h1, h2⟩ := h
  rw [List.append_assoc, List.append_assoc] at h1
  refine ⟨h1, fun start stop hle => ?_⟩
  have := h2 start stop (by rw [byteLength_append]; omega)
  rwa [List.append_assoc, List.append_assoc] at this

end Alike

/-- Comments behind a place leave what lies before the place free. -/
theorem freeOf_append_shift {before later : List Span} {start stop bytes : Nat}
    (hle : stop ≤ bytes) :
    FreeOf (before ++ later.map (shift bytes)) start stop ↔ FreeOf before start stop := by
  constructor
  · exact fun h span hs => h span (List.mem_append_left _ hs)
  · intro h span hs
    rcases List.mem_append.1 hs with hs | hs
    · exact h span hs
    · obtain ⟨old, -, rfl⟩ := List.mem_map.1 hs
      right
      simp only [shift]
      omega

/-- A free place exchanged for an inert word. -/
theorem alike_exchange {pre old post word : List Char} (hold : old ≠ [])
    (hline : old.head? ≠ some '\n') (hword : Inert word)
    (hfree : FreeOf (spans (pre ++ (old ++ post))) (byteLength pre)
      (byteLength pre + byteLength old)) :
    Alike pre (old ++ post) (word ++ post) := by
  refine ⟨slices_exchange hold hline hword hfree, fun start stop hle => ?_⟩
  obtain ⟨before, h1, h2, -⟩ := exists_spans_exchange hold hline hword hfree
  rw [h1, h2, freeOf_append_shift (by rw [byteLength_append]; omega),
    freeOf_append_shift (by rw [byteLength_append]; omega)]

/-- Being free of comments, in terms of overlaps. -/
theorem freeOf_of_overlapsAny {span : Span} {found : List Span}
    (h : span.overlapsAny found = false) : FreeOf found span.start span.stop := by
  intro other ho
  have := overlaps_eq_false.1 (overlapsAny_eq_false.1 h other ho)
  omega

end Comment

/-! ### Tokens and the parts of values -/

/-- A token that is a CSS variable, `var(--NAME)`. -/
def IsVariable (token : List Char) : Prop :=
  ∃ name, token = "var(--".toList ++ (name ++ [')']) ∧
    ∀ c ∈ name, c.isAlphanum = true ∨ c = '-' ∨ c = '_'

theorem IsVariable.inert {token : List Char} (h : IsVariable token) : Comment.Inert token := by
  obtain ⟨name, rfl, hname⟩ := h
  refine ⟨⟨'v', "ar(--".toList ++ (name ++ [')']), rfl, fun form => ?_⟩, ?_, ?_⟩
  · cases form <;> decide
  · intro hm
    simp only [List.mem_append, String.toList] at hm
    rcases hm with hm | hm | hm
    · revert hm
      decide
    · rcases hname _ hm with h | h | h <;> revert h <;> decide
    · revert hm
      decide
  · intro hm
    simp only [List.mem_append, String.toList] at hm
    rcases hm with hm | hm | hm
    · revert hm
      decide
    · rcases hname _ hm with h | h | h <;> revert h <;> decide
    · revert hm
      decide

/-- A table whose tokens are all CSS variables. -/
def TokenTable.HasVariables (table : TokenTable) : Prop :=
  ∀ row ∈ table.rows, IsVariable row.2.toList

theorem TokenTable.HasVariables.lookup {table : TokenTable} (h : table.HasVariables)
    {category : Category} {literal : List Char} {token : String}
    (ht : table.lookup? category literal = some token) : IsVariable token.toList :=
  h _ (lookup?_eq_some_iff.1 ht)

/-- What is exchanged for a token is not white space. -/
theorem Treatment.ofPart_token? {table : TokenTable} {category : Category} {part token : List Char}
    (h : (Treatment.ofPart table category part).token? = some token) :
    allBlank part = false ∧
      ∃ word, table.lookup? category part = some word ∧ token = word.toList := by
  rw [Treatment.ofPart] at h
  split at h
  · simp [Treatment.token?] at h
  · next hb =>
    refine ⟨by simpa using hb, ?_⟩
    split at h
    · next word hl => exact ⟨word, hl, by simpa [Treatment.token?] using h.symm⟩
    · split at h <;> simp [Treatment.token?] at h

namespace Substitution

variable {table : TokenTable} {rule : Rule} {value : List Char}

/-- A part of a value that stays, or that can be exchanged without harm. -/
def Harmless (part : List Char × Treatment) : Prop :=
  ∀ token, part.2.token? = some token →
    part.1 ≠ [] ∧ part.1.head? ≠ some '\n' ∧ Comment.Inert token

/-- The parts make up the value. -/
theorem flatten_parts (table : TokenTable) (rule : Rule) (value : List Char) :
    ((ofValue table rule value).parts.map Prod.fst).flatten = value := by
  rw [ofValue, List.map_map, Function.comp_def, List.map_id']
  split
  · exact flatten_runs value
  · simp

/-- Parts of values that do not begin with white space are harmless. -/
theorem harmless_ofValue (htable : table.HasVariables)
    (hvalue : ∀ c, value.head? = some c → isBlank c = false) :
    ∀ part ∈ (ofValue table rule value).parts, Harmless part := by
  intro part hp token ht
  simp only [ofValue, List.mem_map] at hp
  obtain ⟨text, hm, rfl⟩ := hp
  obtain ⟨hsolid, word, hlookup, rfl⟩ := Treatment.ofPart_token? ht
  have hne : text ≠ [] := by
    rintro rfl
    simp [allBlank] at hsolid
  refine ⟨hne, fun hline => ?_, (htable.lookup hlookup).inert⟩
  obtain ⟨c, rest, rfl⟩ := List.exists_cons_of_ne_nil hne
  obtain rfl : c = '\n' := by simpa using hline
  have hblank : isBlank '\n' = true := by decide
  split at hm
  · obtain ⟨b, hb⟩ := isBlank_of_mem_runs hm
    obtain rfl : b = true := by rw [← hb _ List.mem_cons_self, hblank]
    rw [allBlank, List.all_eq_false] at hsolid
    obtain ⟨d, hd, hd'⟩ := hsolid
    exact hd' (hb d hd)
  · obtain rfl := List.mem_singleton.1 hm
    rw [hvalue '\n' rfl] at hblank
    simp at hblank

/-- A value and what a rule makes of it, where no comment touches it. -/
theorem alike (post : List Char) : ∀ (parts : List (List Char × Treatment)) (pre : List Char),
    (∀ part ∈ parts, Harmless part) →
    Comment.FreeOf (Comment.spans (pre ++ ((parts.map Prod.fst).flatten ++ post)))
      (byteLength pre) (byteLength pre + byteLength (parts.map Prod.fst).flatten) →
    Comment.Alike pre ((parts.map Prod.fst).flatten ++ post) ((Substitution.mk parts).text ++ post)
  | [], pre, _, _ => .refl pre post
  | (part, treatment) :: parts, pre, hparts, hfree => by
    simp only [List.map_cons, List.flatten_cons, text, List.append_assoc, byteLength_append]
      at hfree ⊢
    have hrest : Comment.Alike (pre ++ part) ((parts.map Prod.fst).flatten ++ post)
        ((Substitution.mk parts).text ++ post) := by
      refine alike post parts (pre ++ part) (fun p hp => hparts p (List.mem_cons_of_mem _ hp)) ?_
      intro span hs
      have := hfree span (by simpa using hs)
      simp only [byteLength_append]
      omega
    refine hrest.of_append.trans ?_
    cases ht : treatment.token? with
    | none => exact .refl pre _
    | some token =>
      obtain ⟨hne, hline, hinert⟩ := hparts _ List.mem_cons_self token ht
      refine Comment.alike_exchange hne hline hinert ?_
      have := (hrest.freeOf_iff (byteLength pre) (byteLength pre + byteLength part)
        (by rw [byteLength_append])).2 fun span hs => by
          have := hfree span (by simpa using hs)
          omega
      simpa using this

end Substitution

namespace Layout

variable {set : RuleSet} {k : Nat}

/-- The text before and after the turn of a rule, if it changes only what no
comment touches. -/
theorem alike_succ (rule : Rule) (htable : set.table.HasVariables) (layout : Layout) : ∀ pre : List Char,
    (∀ p ∈ layout.placedFrom k (byteLength pre), p.2.owner = k →
      (∀ c, p.2.value.head? = some c → isBlank c = false) ∧
      ∀ new, p.2.change = some new →
        new = (Substitution.ofValue set.table rule p.2.value).text ∧
        Comment.FreeOf (Comment.spans (pre ++ layout.textAt k)) p.1.start p.1.stop) →
    Comment.Alike pre (layout.textAt k) (layout.textAt (k + 1)) := by
  induction layout with
  | last gap => exact fun pre _ => .refl pre gap
  | site gap s rest ih =>
    intro pre h
    rw [placedFrom] at h
    have hrest : Comment.Alike (pre ++ (gap ++ s.textAt k)) (rest.textAt k)
        (rest.textAt (k + 1)) := by
      refine ih _ fun p hp ho => ?_
      simp only [byteLength_append, ← Nat.add_assoc] at hp
      obtain ⟨h1, h2⟩ := h p (List.mem_cons_of_mem _ hp) ho
      refine ⟨h1, fun new hn => ?_⟩
      obtain ⟨h3, h4⟩ := h2 new hn
      exact ⟨h3, by simpa [textAt] using h4⟩
    have hfirst := hrest.of_append
    rw [List.append_assoc, List.append_assoc] at hfirst
    refine hfirst.trans ?_
    rw [textAt]
    by_cases ho : s.owner = k
    swap
    · rw [Site.textAt_succ_of_ne ho]
      exact .refl _ _
    obtain ⟨hvalue, hchange⟩ := h _ List.mem_cons_self ho
    cases hc : s.change with
    | none =>
      rw [← ho, s.textAt_owner_succ, hc, Option.getD_none, Site.textAt_of_le le_rfl]
      exact .refl _ _
    | some new =>
      obtain ⟨rfl, hfree⟩ := hchange new hc
      have hsplit := Substitution.flatten_parts set.table rule s.value
      have hold : s.textAt k = s.lead ++ (s.value ++ s.trail) := Site.textAt_of_le ho.ge
      have hnew : s.textAt (k + 1) = s.lead ++
          ((Substitution.ofValue set.table rule s.value).text ++ s.trail) := by
        rw [← ho, s.textAt_owner_succ, hc, Option.getD_some]
      -- The place is still free when the sites behind it have been changed.
      have hfree' := (hrest.freeOf_iff (byteLength pre + byteLength gap)
        (byteLength pre + byteLength gap + byteLength (s.textAt k))
        (by simp only [byteLength_append]; omega)).2 (by simpa [textAt] using hfree)
      have key := Substitution.alike (s.trail ++ rest.textAt (k + 1))
        (Substitution.ofValue set.table rule s.value).parts (pre ++ (gap ++ s.lead))
        (Substitution.harmless_ofValue htable hvalue) (fun span hs => by
          have := hfree' span (by rw [hold]; simpa [hsplit] using hs)
          rw [hsplit]
          rw [hold] at this
          simp only [byteLength_append] at this ⊢
          omega)
      rw [hsplit] at key
      have := key.of_append
      rw [hold, hnew]
      simpa using this

end Layout

/-- A rule whose pattern takes no value that begins with white space. -/
def Rule.SolidValues (rule : Rule) : Prop :=
  ∀ text, ∀ found ∈ rule.program.occurrences text, ∀ value,
    found.capture? valueGroup = some value →
      ∀ c, (slice value text).head? = some c → isBlank c = false

theorem Rule.SolidValues.head_of_mem_hits {rule : Rule} (h : rule.SolidValues)
    {claims : List Span} {text : List Char} {hit : Hit} (hm : hit ∈ rule.hits claims text) :
    ∀ c, hit.literal.head? = some c → isBlank c = false := by
  obtain ⟨found, hf, hh⟩ := List.mem_filterMap.1 (Rule.hits_eq ▸ hm)
  obtain ⟨value, hv, rfl, -⟩ := Rule.hitOf?_eq_some_iff.1 hh
  exact h text found hf value hv

/-- **Comments survive a revision.**  Where all tokens are CSS variables and no
value begins with white space, the comments of the revised text are those of the
text, in order and character by character. -/
theorem slices_revise (set : RuleSet) (htable : set.table.HasVariables)
    (hrules : ∀ rule ∈ set.rules, rule.SolidValues) (text : List Char) :
    Comment.slices (set.revise text).text = Comment.slices text := by
  obtain ⟨layout, h⟩ := Layout.exists_describes set text _ le_rfl
  -- The comments are the same before the turn of every rule.
  have key : ∀ k ≤ set.rules.length, Comment.slices (set.draftAt text k).text =
      Comment.slices text := by
    intro k
    induction k with
    | zero => exact fun _ => rfl
    | succ k ih =>
      intro hk
      have hrule : set.rules[k]? = some set.rules[k] := List.getElem?_eq_getElem hk
      rw [h.texts (k + 1) hk, ← ih (by omega), h.texts k (by omega)]
      refine (Layout.alike_succ set.rules[k] htable layout [] ?_).slices_eq
      intro p hp ho
      have hhits := h.hits k hk _ hrule
      refine ⟨?_, fun new hn => ?_⟩
      · have hm : p.2.hitAt p.1 ∈ layout.hitsAt k :=
          List.mem_map_of_mem (List.mem_filter.2 ⟨hp, by simpa using ho⟩)
        exact (hrules _ (List.getElem_mem hk)).head_of_mem_hits (hhits ▸ hm)
      · have hc := h.changes k hk _ hrule p hp ho
        rw [hn, RuleSet.change?] at hc
        split at hc
        · simp at hc
        · next hskip =>
          simp only [Bool.or_eq_true, not_or, Bool.not_eq_true] at hskip
          refine ⟨Option.some.inj hc, ?_⟩
          rw [List.nil_append, ← h.texts k (by omega)]
          exact Comment.freeOf_of_overlapsAny hskip.1
  rw [RuleSet.revise_text]
  exact key _ le_rfl

end StyleTokens

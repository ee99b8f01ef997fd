/-
Revising a text twice.

In an orderly rule set, a revision leaves no place where a rule would replace
something, so that a second revision changes nothing.

The turn of a rule replaces values one by one, and each replacement leaves the
other redexes as they are.  A redex of the rule overlaps no claim, so the rule
claims it; hence no redex of it is left after its turn, and later turns bring
none back.

* `Redex`, `Retains` — the places where a rule would replace something, and texts
  that keep them;
* `Layout.retains` — the turn of a rule leaves no redex but those before the
  layout;
* `Layout.Describes.not_redex` — what the rules so far have left is free of their
  redexes;
* `RuleSet.Orderly.idempotent` — revising a revised text.
-/
import StyleTokens.Proofs.Revision.Redex

namespace StyleTokens

open Text

variable {set : RuleSet} {phrases : Nat → Phrase} {k : Nat}

/-- Of the rules up to the `k`-th one, the second text has no redexes but those
of the first text that lie in what both begin with; and it has all of these. -/
structure Retains (set : RuleSet) (phrases : Nat → Phrase) (k : Nat)
    (pre first second : List Char) : Prop where
  back : ∀ j ≤ k, ∀ rule a f w b, a ++ (f ++ (w ++ b)) = pre ++ second →
    Redex set phrases j rule a f w b → ∃ c, pre = a ++ (f ++ (w ++ c)) ∧
      Redex set phrases j rule a f w (c ++ first)
  forth : ∀ j ≤ k, ∀ rule a f w c, pre = a ++ (f ++ (w ++ c)) →
    Redex set phrases j rule a f w (c ++ first) → Redex set phrases j rule a f w (c ++ second)

/-- A redex is not empty. -/
theorem Redex.byteLength_lt (ho : set.Orderly phrases) {i : Nat} {rule : Rule} {a f w b : List Char}
    (h : Redex set phrases i rule a f w b) : byteLength a < byteLength (a ++ (f ++ w)) := by
  have hfollows := ho.follows i rule h.mem
  have := byteLength_pos (hfollows.ne_nil w (hfollows.bears_of_reads _ _ h.reads))
  simp only [byteLength_append]
  omega

namespace Retains

variable {pre front gap F W first second : List Char}

theorem refl_of (h : ∀ j ≤ k, ∀ rule a f w b, a ++ (f ++ (w ++ b)) = pre ++ first →
    Redex set phrases j rule a f w b → byteLength (a ++ (f ++ w)) ≤ byteLength pre) :
    Retains set phrases k pre first first := by
  refine ⟨fun j hj rule a f w b htext hr => ?_, fun _ _ _ _ _ _ _ _ hr => hr⟩
  obtain ⟨c, rfl, rfl⟩ := append_eq_append_of_le
    (show (a ++ (f ++ w)) ++ b = pre ++ first by rw [← htext]; simp) (h j hj rule a f w b htext hr)
  exact ⟨c, by simp, hr⟩

/-- What stands in front of both texts may count as part of them, if no redex of
the first text ends in it. -/
theorem of_append (h : Retains set phrases k (pre ++ front) first second)
    (hbefore : ∀ j ≤ k, ∀ rule a f w c, pre ++ front = a ++ (f ++ (w ++ c)) →
      Redex set phrases j rule a f w (c ++ first) →
      byteLength (a ++ (f ++ w)) ≤ byteLength pre) :
    Retains set phrases k pre (front ++ first) (front ++ second) := by
  constructor
  · intro j hj rule a f w b htext hr
    obtain ⟨c, hsplit, hr'⟩ := h.back j hj rule a f w b (by rw [htext, List.append_assoc]) hr
    obtain ⟨c', hpre, rfl⟩ := append_eq_append_of_le
      (show (a ++ (f ++ w)) ++ c = pre ++ front by rw [hsplit]; simp)
      (hbefore j hj rule a f w c hsplit hr')
    exact ⟨c', by simpa using hpre, by simpa using hr'⟩
  · intro j hj rule a f w c hpre hr
    have := h.forth j hj rule a f w (c ++ front) (by simp [hpre]) (by simpa using hr)
    simpa using this

/-- A redex in front of both texts may be replaced, if all other redexes of the
first text end before it or lie behind it. -/
theorem edit (ho : set.Orderly phrases) {rule : Rule}
    (h : Retains set phrases k (pre ++ (gap ++ (F ++ W))) first second)
    (hbefore : ∀ j ≤ k, ∀ rule a f w c, pre ++ (gap ++ (F ++ W)) = a ++ (f ++ (w ++ c)) →
      Redex set phrases j rule a f w (c ++ first) →
      byteLength (a ++ (f ++ w)) ≤ byteLength pre ∨ byteLength (pre ++ gap) ≤ byteLength a)
    (hredex : Redex set phrases k rule (pre ++ gap) F W first) :
    Retains set phrases k pre (gap ++ (F ++ (W ++ first)))
      (gap ++ (F ++ ((Substitution.ofValue set.table rule W).text ++ second))) := by
  have hfront : pre ++ (gap ++ (F ++ W)) = pre ++ gap ++ (F ++ (W ++ [])) := by simp
  have hnext : Redex set phrases k rule (pre ++ gap) F W second :=
    h.forth k le_rfl rule _ _ _ [] hfront hredex
  constructor
  · intro j hj other a f w b htext hr
    have hlt := hr.byteLength_lt ho
    rcases hnext.exchange ho hr (by rw [htext, List.append_assoc]) with
      ⟨c, hA, hr'⟩ | ⟨c, hB, hr'⟩
    · obtain ⟨c', hsplit, hr''⟩ := h.back j hj other a f w _ (by
        rw [hfront, hA]
        simp) hr'
      have hle : byteLength (a ++ (f ++ w)) ≤ byteLength pre := by
        rcases hbefore j hj other a f w c' hsplit hr'' with hle | hge
        · exact hle
        · have := congrArg byteLength hA
          simp only [byteLength_append] at hge hlt this
          omega
      obtain ⟨d, hpre, rfl⟩ := append_eq_append_of_le
        (show (a ++ (f ++ w)) ++ c' = pre ++ (gap ++ (F ++ W)) by rw [hsplit]; simp) hle
      exact ⟨d, by simpa using hpre, by simpa using hr''⟩
    · exfalso
      obtain ⟨c', hsplit, -⟩ := h.back j hj other _ f w b (by
        rw [hfront, hB]
        simp) hr'
      have := congrArg byteLength (hfront.symm.trans hsplit)
      simp only [byteLength_append, byteLength_nil] at hlt this
      omega
  · intro j hj other a f w c hpre hr
    have hr' := h.forth j hj other a f w (c ++ (gap ++ (F ++ W))) (by simp [hpre])
      (by simpa using hr)
    have key : Redex set phrases j other a f w
        ((c ++ gap) ++ (F ++ ((Substitution.ofValue set.table rule W).text ++ second))) :=
      (hnext.before_iff ho (by simp [hpre])).1 (by simpa using hr')
    simpa using key

end Retains

namespace Layout

/-- The edited sites of a rule are redexes. -/
def EditsRedexes (set : RuleSet) (phrases : Nat → Phrase) (k : Nat) (pre : List Char)
    (layout : Layout) : Prop :=
  ∀ p ∈ layout.placedFrom k (byteLength pre), p.2.owner = k → ∀ new, p.2.change = some new →
    ∃ rule a b, pre ++ layout.textAt k = a ++ (p.2.lead ++ (p.2.value ++ b)) ∧
      p.1.start = byteLength a ∧ p.2.trail = [] ∧
      new = (Substitution.ofValue set.table rule p.2.value).text ∧
      Redex set phrases k rule a p.2.lead p.2.value b

/-- All redexes of the rules up to the `k`-th one lie before the layout or are
edited sites. -/
def CoversRedexes (set : RuleSet) (phrases : Nat → Phrase) (k : Nat) (pre : List Char)
    (layout : Layout) : Prop :=
  ∀ j ≤ k, ∀ rule a f w b, a ++ (f ++ (w ++ b)) = pre ++ layout.textAt k →
    Redex set phrases j rule a f w b → byteLength (a ++ (f ++ w)) ≤ byteLength pre ∨
      ∃ p ∈ layout.placedFrom k (byteLength pre), p.2.owner = k ∧ p.2.change ≠ none ∧
        p.1 = ⟨byteLength a, byteLength (a ++ (f ++ w))⟩

/-- **The turn of a rule leaves no redex.**  Each edit takes one redex away, and
no other one appears. -/
theorem retains (ho : set.Orderly phrases) (layout : Layout) : ∀ pre : List Char,
    layout.EditsRedexes set phrases k pre → layout.CoversRedexes set phrases k pre →
    Retains set phrases k pre (layout.textAt k) (layout.textAt (k + 1)) := by
  induction layout with
  | last gap =>
    intro pre _ hcovers
    refine Retains.refl_of fun j hj rule a f w b htext h => ?_
    rcases hcovers j hj rule a f w b htext h with hle | ⟨p, hp, -⟩
    · exact hle
    · simp [placedFrom] at hp
  | site gap s rest ih =>
    intro pre hedits hcovers
    set front := gap ++ s.textAt k with hfront
    have hlen : byteLength (pre ++ front) =
        byteLength pre + byteLength gap + byteLength (s.textAt k) := by
      simp [hfront, Nat.add_assoc]
    have hnow : pre ++ (site gap s rest).textAt k = pre ++ front ++ rest.textAt k := by
      simp [hfront, textAt]
    have hrest : Retains set phrases k (pre ++ front) (rest.textAt k) (rest.textAt (k + 1)) := by
      refine ih (pre ++ front) ?_ ?_
      · intro p hp hown new hnew
        rw [hlen] at hp
        obtain ⟨rule, a, b, h1, h2⟩ := hedits p (List.mem_cons_of_mem _ hp) hown new hnew
        exact ⟨rule, a, b, hnow ▸ h1, h2⟩
      · intro j hj rule a f w b htext h
        rcases hcovers j hj rule a f w b (hnow ▸ htext) h with hle | ⟨p, hp, h1, h2, h3⟩
        · left
          omega
        · rw [placedFrom, List.mem_cons] at hp
          rcases hp with rfl | hp
          · left
            have := congrArg Span.stop h3
            dsimp only at this
            omega
          · right
            rw [hlen]
            exact ⟨p, hp, h1, h2, h3⟩
    -- Up to the site, the redexes lie before the layout or are the site itself.
    have hbefore : ∀ j ≤ k, ∀ rule a f w c, pre ++ front = a ++ (f ++ (w ++ c)) →
        Redex set phrases j rule a f w (c ++ rest.textAt k) →
        byteLength (a ++ (f ++ w)) ≤ byteLength pre ∨
          (s.owner = k ∧ s.change ≠ none ∧ byteLength (pre ++ gap) ≤ byteLength a) := by
      intro j hj rule a f w c hsplit h
      rcases hcovers j hj rule a f w _ (by rw [hnow, hsplit]; simp) h with hle | ⟨p, hp, h1, h2, h3⟩
      · exact Or.inl hle
      · right
        have hlt := h.byteLength_lt ho
        rw [placedFrom, List.mem_cons] at hp
        rcases hp with rfl | hp
        · exact ⟨h1, h2, by simpa using (congrArg Span.start h3).le⟩
        · exfalso
          have hstart := (placedFrom_bounds hp).1
          have hfit := congrArg byteLength hsplit
          rw [h3] at hstart
          simp only [byteLength_append] at hlen hfit hstart hlt
          omega
    by_cases hedit : s.owner = k ∧ s.change ≠ none
    · obtain ⟨hown, hchange⟩ := hedit
      obtain ⟨new, hnew⟩ := Option.ne_none_iff_exists'.1 hchange
      obtain ⟨rule, A, B, hsplit, hstart, htrail, rfl, hredex⟩ :=
        hedits _ List.mem_cons_self hown new hnew
      have hold : s.textAt k = s.lead ++ s.value := by
        rw [Site.textAt_of_le hown.ge, htrail, List.append_nil]
      have hsnew : s.textAt (k + 1) =
          s.lead ++ (Substitution.ofValue set.table rule s.value).text := by
        rw [← hown, s.textAt_owner_succ, hnew, htrail, Option.getD_some, List.append_nil]
      obtain ⟨rfl, hB⟩ := append_inj_of_byteLength
        (show A ++ (s.lead ++ (s.value ++ B)) = (pre ++ gap) ++ (s.lead ++ (s.value ++ rest.textAt k))
          by rw [← hsplit, hnow, hfront, hold]; simp) (by simpa using hstart.symm)
      obtain rfl : B = rest.textAt k :=
        List.append_cancel_left (List.append_cancel_left hB)
      rw [hfront, hold] at hrest hbefore
      have key := hrest.edit ho
        (fun j hj other a f w c hsplit h =>
          (hbefore j hj other a f w c hsplit h).imp_right fun h => h.2.2) hredex
      simpa [textAt, hold, hsnew] using key
    · have hsame : s.textAt (k + 1) = s.textAt k := by
        by_cases hown : s.owner = k
        · have hnone : s.change = none := by_contra fun h => hedit ⟨hown, h⟩
          rw [← hown, s.textAt_owner_succ, hnone, Option.getD_none, Site.textAt_of_le le_rfl]
        · exact Site.textAt_succ_of_ne hown
      have key := hrest.of_append fun j hj rule a f w c hsplit h =>
        (hbefore j hj rule a f w c hsplit h).resolve_right fun h => hedit ⟨h.1, h.2.1⟩
      simpa [textAt, hsame, hfront] using key

/-! ### Sites of an orderly rule set -/

/-- The text around a site at all stages; what stands before it is empty at all of
them or at none. -/
theorem exists_fronts {stage offset : Nat} {layout : Layout}
    (hlead : ∀ s ∈ layout.sites, s.lead ≠ []) {p : Span × Site}
    (h : p ∈ layout.placedFrom stage offset) : ∃ front back : Nat → List Char,
      (∀ j, layout.textAt j = front j ++ (p.2.textAt j ++ back j)) ∧
      p.1 = ⟨offset + byteLength (front stage),
        offset + byteLength (front stage) + byteLength (p.2.textAt stage)⟩ ∧
      (∀ j offset, (⟨offset + byteLength (front j),
        offset + byteLength (front j) + byteLength (p.2.textAt j)⟩, p.2) ∈
          layout.placedFrom j offset) ∧
      ∀ i j, (front i).isEmpty = (front j).isEmpty := by
  induction layout generalizing offset with
  | last gap => simp [placedFrom] at h
  | site gap s rest ih =>
    rw [placedFrom, List.mem_cons] at h
    rcases h with rfl | h
    · exact ⟨fun _ => gap, fun j => rest.textAt j, fun j => rfl, rfl,
        fun j offset => List.mem_cons_self, fun _ _ => rfl⟩
    · obtain ⟨front, back, h1, h2, h3, -⟩ := ih (fun t ht => hlead t (by simp [sites, ht])) h
      refine ⟨fun j => gap ++ (s.textAt j ++ front j), back, fun j => ?_, ?_, fun j offset => ?_,
        fun i j => ?_⟩
      · simp [textAt, h1]
      · rw [h2]
        simp only [byteLength_append, Nat.add_assoc]
      · have := h3 j (offset + byteLength gap + byteLength (s.textAt j))
        rw [placedFrom]
        simp only [byteLength_append, Nat.add_assoc] at this ⊢
        exact List.mem_cons_of_mem _ this
      · have hne : ∀ j, (gap ++ (s.textAt j ++ front j)).isEmpty = false := fun j => by
          rw [List.isEmpty_eq_false_iff]
          simp [Site.textAt, hlead s (by simp [sites])]
        rw [hne, hne]

namespace Describes

variable {layout : Layout} {text : List Char} {n : Nat}

/-- A site is a value behind its longest lead. -/
theorem exists_find (h : layout.Describes set text n) (ho : set.Orderly phrases) {j : Nat}
    (hj : j < n) {rule : Rule} (hrule : set.rules[j]? = some rule) {p : Span × Site}
    (hp : p ∈ layout.placedAt j) (hown : p.2.owner = j) : ∃ a b,
      layout.textAt j = a ++ (p.2.lead ++ (p.2.value ++ b)) ∧
      p.1 = ⟨byteLength a, byteLength (a ++ (p.2.lead ++ p.2.value))⟩ ∧ p.2.trail = [] ∧
      (phrases j).lead a.isEmpty p.2.lead ∧ (phrases j).reads (p.2.value ++ b) p.2.value ∧
      (phrases j).Leftmost a p.2.lead ∧ endsValue b.head? = true := by
  have hm : p.2.hitAt p.1 ∈ layout.hitsAt j :=
    List.mem_map_of_mem (List.mem_filter.2 ⟨hp, by simpa using hown⟩)
  rw [← h.hits j hj rule hrule, h.texts j hj.le, Rule.hits_eq] at hm
  obtain ⟨found, hfound, hhit⟩ := List.mem_filterMap.1 hm
  obtain ⟨value, hcap, heq, -, -, hend⟩ := Rule.hitOf?_eq_some_iff.1 hhit
  obtain ⟨a, f, w, b, htext, hf, hw, hleft, hspan, hcap'⟩ := ho.exists_of_mem hrule hfound
  obtain ⟨a', b', htext', hp'⟩ := exists_of_mem_placedFrom hp
  obtain ⟨hps, hvs, -⟩ := Hit.mk.inj heq
  obtain rfl := Option.some.inj (hcap'.symm.trans hcap)
  rw [Nat.zero_add] at hp'
  rw [hspan] at hps
  rw [hps] at hp' hvs
  obtain ⟨hstart, hstop⟩ := Span.mk.inj hp'
  obtain ⟨hvstart, hvstop⟩ := Span.mk.inj hvs
  rw [Site.textAt_of_le hown.ge] at htext' hstop
  simp only [byteLength_append] at hstop hvstart hvstop
  obtain ⟨rfl, hrest⟩ := append_inj_of_byteLength (htext.symm.trans htext') hstart
  obtain ⟨rfl, hrest'⟩ := append_inj_of_byteLength
    (show f ++ (w ++ b) = p.2.lead ++ (p.2.value ++ (p.2.trail ++ b')) by rw [hrest]; simp) (by omega)
  obtain ⟨rfl, hrest''⟩ := append_inj_of_byteLength hrest' (by omega)
  have htrail : p.2.trail = [] := byteLength_eq_zero.1 (by omega)
  refine ⟨a, b, htext, hps, htrail, hf, hw, hleft, ?_⟩
  rw [htext, show a ++ (p.2.lead ++ (p.2.value ++ b)) = a ++ (p.2.lead ++ p.2.value) ++ b by simp,
    dropBytes_byteLength] at hend
  exact hend

/-- What a site has become stands behind its lead. -/
theorem exists_bears (h : layout.Describes set text n) (ho : set.Orderly phrases)
    (hn : n ≤ set.rules.length) {p : Span × Site} (hp : p ∈ layout.placedAt k) : ∃ a v b,
      layout.textAt k = a ++ (p.2.lead ++ (v ++ b)) ∧
      p.1 = ⟨byteLength a, byteLength (a ++ (p.2.lead ++ v))⟩ ∧
      (phrases p.2.owner).lead a.isEmpty p.2.lead ∧ (phrases p.2.owner).bears v := by
  have hrule : ∀ s ∈ layout.sites, ∃ rule, set.rules[s.owner]? = some rule := fun s hs =>
    ⟨_, List.getElem?_eq_getElem (lt_of_lt_of_le (h.owners s hs) hn)⟩
  have hlead : ∀ s ∈ layout.sites, s.lead ≠ [] := by
    intro s hs
    obtain ⟨rule, hr⟩ := hrule s hs
    obtain ⟨q, hq, rfl⟩ := (mem_sites_iff s.owner).1 hs
    obtain ⟨a, b, -, -, -, hl, -⟩ := h.exists_find ho (h.owners _ hs) hr hq rfl
    exact List.ne_nil_of_mem ((ho.follows _ _ hr).colon _ _ hl)
  have hs : p.2 ∈ layout.sites := (mem_sites_iff k).2 ⟨p, hp, rfl⟩
  obtain ⟨rule, hr⟩ := hrule p.2 hs
  obtain ⟨front, back, htext, hspan, hplaced, hempty⟩ := exists_fronts hlead hp
  have hq := hplaced p.2.owner 0
  obtain ⟨a, b, htext', hspan', htrail, hl, hw, -⟩ := h.exists_find ho (h.owners _ hs) hr hq rfl
  dsimp only at htext' hspan' htrail hl hw
  rw [htext p.2.owner] at htext'
  obtain ⟨rfl, -⟩ := append_inj_of_byteLength htext' (by
    have := congrArg Span.start hspan'
    simpa using this)
  have hk : p.2.textAt k = p.2.lead ++ p.2.valueAt k := by
    rw [Site.textAt, htrail, List.append_nil]
  refine ⟨front k, p.2.valueAt k, back k, by rw [htext, hk]; simp, ?_, hempty _ k ▸ hl, ?_⟩
  · rw [hspan, hk]
    simp
  · have hfollows := ho.follows _ _ hr
    rw [Site.valueAt]
    split
    · have hchange := h.changes _ (h.owners _ hs) rule hr _ hq rfl
      dsimp only at hchange
      cases hc : p.2.change with
      | none => exact hfollows.bears_of_reads _ _ hw
      | some new =>
        rw [hc, RuleSet.change?] at hchange
        split at hchange
        · simp at hchange
        · next hskip =>
          simp only [Bool.or_eq_true, decide_eq_true_eq, not_or] at hskip
          rw [Option.getD_some, Option.some.inj hchange]
          exact hfollows.bears_text _ _ hw hskip.2
    · exact hfollows.bears_of_reads _ _ hw

/-- The edited sites of a rule are redexes. -/
theorem editsRedexes (h : layout.Describes set text n) (ho : set.Orderly phrases) {rule : Rule}
    (hk : k < n) (hrule : set.rules[k]? = some rule) : layout.EditsRedexes set phrases k [] := by
  intro p hp hown new hnew
  obtain ⟨a, b, htext, hspan, htrail, hl, hw, hleft, hend⟩ := h.exists_find ho hk hrule hp hown
  have hchange := h.changes k hk rule hrule p hp hown
  rw [hnew, RuleSet.change?] at hchange
  split at hchange
  · simp at hchange
  · next hskip =>
    simp only [Bool.or_eq_true, decide_eq_true_eq, not_or, Bool.not_eq_true] at hskip
    have hfree := Comment.freeOf_of_overlapsAny hskip.1
    rw [h.texts k hk.le, htext] at hfree
    dsimp only [Site.hitAt] at hfree
    rw [hspan] at hfree
    exact ⟨rule, a, b, htext, congrArg Span.start hspan, htrail, Option.some.inj hchange,
      hrule, hl, hw, hleft, hend, hfree, hskip.2⟩

/-- A redex of the rule whose turn it is overlaps no claim, so the rule edits it. -/
theorem exists_site_of_redex (h : layout.Describes set text n) (ho : set.Orderly phrases)
    (hn : n ≤ set.rules.length) (hk : k < n) {rule : Rule} {a f w b : List Char}
    (htext : a ++ (f ++ (w ++ b)) = layout.textAt k) (hr : Redex set phrases k rule a f w b) :
    ∃ p ∈ layout.placedAt k, p.2.owner = k ∧ p.2.change ≠ none ∧
      p.1 = ⟨byteLength a, byteLength (a ++ (f ++ w))⟩ := by
  obtain ⟨found, hfound, hspan, hcap⟩ := ho.exists_mem hr.mem hr.lead hr.reads hr.leftmost
  have hfollows := ho.follows k rule hr.mem
  have hslice : slice ⟨byteLength (a ++ f), byteLength (a ++ (f ++ w))⟩ (layout.textAt k) = w := by
    have := slice_append (a ++ f) w b
    rw [← htext]
    simpa [Nat.add_assoc] using this
  have hsolid : allBlank w = false := by
    obtain ⟨c, rest, rfl⟩ := List.exists_cons_of_ne_nil
      (hfollows.ne_nil w (hfollows.bears_of_reads _ _ hr.reads))
    simp [allBlank, hfollows.solid _ _ hr.reads c rfl]
  have hclaims : found.span.overlapsAny (set.draftAt text k).claims = false := by
    refine overlapsAny_eq_false.2 fun span hs => ?_
    obtain ⟨p, hp, hown, rfl⟩ := (h.claims k hk.le span).1 hs
    obtain ⟨a', v, b', htext', hspan', hl', hv'⟩ := h.exists_bears ho hn hp
    rw [overlaps_eq_false, hspan, hspan']
    by_contra hover
    rw [not_or, not_le, not_le] at hover
    have := (ho.apart k p.2.owner (by omega) (by omega) a f w b a' p.2.lead v b'
      (htext.trans htext') hr.lead hr.reads hl' hv' hover.1 hover.2).2
    omega
  have hend : endsValue (dropBytes (byteLength (a ++ (f ++ w))) (layout.textAt k)).head? = true := by
    rw [← htext, show a ++ (f ++ (w ++ b)) = a ++ (f ++ w) ++ b by simp, dropBytes_byteLength]
    exact hr.ended
  set value : Span := ⟨byteLength (a ++ f), byteLength (a ++ (f ++ w))⟩ with hvalue
  have hhit : (⟨found.span, value, w⟩ : Hit) ∈ layout.hitsAt k := by
    rw [← h.hits k hk rule hr.mem, h.texts k hk.le, Rule.hits_eq, List.mem_filterMap]
    refine ⟨found, htext ▸ hfound, Rule.hitOf?_eq_some_iff.2 ⟨value, hcap, ?_, ?_, hclaims, hend⟩⟩
    · rw [hslice]
    · rw [hslice]
      exact hsolid
  obtain ⟨p, hp, hph⟩ := List.mem_map.1 hhit
  obtain ⟨hp, hown⟩ := List.mem_filter.1 hp
  have hown : p.2.owner = k := by simpa using hown
  refine ⟨p, hp, hown, ?_, by rw [← hspan, ← (Hit.mk.inj hph).1]⟩
  have hfree : found.span.overlapsAny (Comment.spans (layout.textAt k)) = false := by
    refine overlapsAny_eq_false.2 fun span hs => ?_
    have := hr.free span (htext ▸ hs)
    rw [overlaps_eq_false, hspan]
    exact this
  rw [h.changes k hk rule hr.mem p hp hown, hph, RuleSet.change?, h.texts k hk.le]
  simp [hfree, hr.replaced]

/-- **What the first rules leave is free of their redexes.** -/
theorem not_redex (h : layout.Describes set text set.rules.length) (ho : set.Orderly phrases) :
    ∀ k ≤ set.rules.length, ∀ j < k, ∀ rule a f w b, a ++ (f ++ (w ++ b)) = layout.textAt k →
      ¬ Redex set phrases j rule a f w b := by
  intro k
  induction k with
  | zero => intro _ j hj; omega
  | succ k ih =>
    intro hk j hj rule a f w b htext hr
    have hrule : set.rules[k]? = some set.rules[k] := List.getElem?_eq_getElem hk
    have hcovers : layout.CoversRedexes set phrases k [] := by
      intro i hi other a f w b htext hr
      rcases hi.lt_or_eq with hlt | rfl
      · exact absurd hr (ih (by omega) i hlt other a f w b htext)
      · exact Or.inr (h.exists_site_of_redex ho le_rfl hk htext hr)
    obtain ⟨c, hpre, hr'⟩ := (layout.retains ho [] (h.editsRedexes ho hk hrule) hcovers).back j
      (by omega) rule a f w b htext hr
    have := hr.byteLength_lt ho
    obtain ⟨rfl, hrest⟩ := List.append_eq_nil_iff.1 hpre.symm
    rw [← List.append_assoc, List.append_eq_nil_iff] at hrest
    rw [hrest.1] at this
    simp at this

end Describes

end Layout

/-! ### The second revision -/

namespace RuleSet.Orderly

variable {text : List Char}

/-- In a text without redexes, a rule replaces nothing. -/
theorem replaced_eq_zero (ho : set.Orderly phrases)
    (hnone : ∀ j rule a f w b, a ++ (f ++ (w ++ b)) = text → ¬ Redex set phrases j rule a f w b)
    {i : Nat} {rule : Rule} (hrule : set.rules[i]? = some rule) {claims : List Span} {hit : Hit}
    (hhit : hit ∈ rule.hits claims text)
    (hfree : hit.span.overlapsAny (Comment.spans text) = false) :
    (Substitution.ofValue set.table rule hit.literal).replaced = 0 := by
  by_contra hne
  obtain ⟨found, hfound, hh⟩ := List.mem_filterMap.1 (Rule.hits_eq ▸ hhit)
  obtain ⟨value, hcap, rfl, -, -, hend⟩ := Rule.hitOf?_eq_some_iff.1 hh
  obtain ⟨a, f, w, b, rfl, hf, hw, hleft, hspan, hcap'⟩ := ho.exists_of_mem hrule hfound
  obtain rfl := Option.some.inj (hcap'.symm.trans hcap)
  dsimp only at hne hend hfree
  have hslice : slice ⟨byteLength (a ++ f), byteLength (a ++ (f ++ w))⟩ (a ++ (f ++ (w ++ b))) = w := by
    simpa [Nat.add_assoc] using slice_append (a ++ f) w b
  rw [hslice] at hne
  have hcomments := Comment.freeOf_of_overlapsAny hfree
  rw [hspan] at hcomments
  rw [show a ++ (f ++ (w ++ b)) = a ++ (f ++ w) ++ b by simp, dropBytes_byteLength] at hend
  exact hnone i rule a f w b rfl ⟨hrule, hf, hw, hleft, hend, hcomments, hne⟩

/-- So the rules leave the text as it is. -/
theorem reviseWith_of_settled (ho : set.Orderly phrases)
    (hnone : ∀ j rule a f w b, a ++ (f ++ (w ++ b)) = text → ¬ Redex set phrases j rule a f w b) :
    ∀ (rules : List Rule), (∀ rule ∈ rules, rule ∈ set.rules) → ∀ draft : Draft, draft.text = text →
      (set.reviseWith rules draft).text = text ∧ (set.reviseWith rules draft).replaced = 0 := by
  intro rules
  induction rules with
  | nil => exact fun _ draft hd => ⟨hd, rfl⟩
  | cons rule rules ih =>
    intro hmem draft hd
    obtain ⟨i, hi⟩ := List.getElem?_of_mem (hmem rule List.mem_cons_self)
    have hzero : ∀ hit ∈ rule.hits draft.claims draft.text,
        hit.span.overlapsAny (Comment.spans draft.text) = false →
          (Substitution.ofValue set.table rule hit.literal).replaced = 0 := by
      rw [hd]
      exact fun hit hh => ho.replaced_eq_zero hnone hi hh
    have htext : (set.step rule draft).1.text = text := by
      have hedits : set.edits rule draft.text (rule.hits draft.claims draft.text) = [] := by
        rw [RuleSet.edits, List.filterMap_eq_nil_iff]
        intro hit hh
        rw [RuleSet.change?]
        cases hc : hit.span.overlapsAny (Comment.spans draft.text) with
        | true => simp
        | false => simp [hzero hit hh hc]
      rw [set.step_eq]
      dsimp only
      rw [hedits, splice, hd]
    have htally : (set.step rule draft).2.replaced = 0 := by
      have : ∀ counts : List Nat, (∀ n ∈ counts, n = 0) → Count.total counts = 0 := by
        intro counts
        induction counts with
        | nil => exact fun _ => rfl
        | cons n counts ih =>
          intro h
          rw [Count.total, h n List.mem_cons_self, ih fun m hm => h m (List.mem_cons_of_mem _ hm)]
      refine this _ fun n hn => ?_
      obtain ⟨_, hw, rfl⟩ := List.mem_map.1 hn
      obtain ⟨hit, hh, rfl⟩ := List.mem_map.1 hw
      obtain ⟨hh, hc⟩ := List.mem_filter.1 hh
      exact hzero hit hh (by simpa using hc)
    obtain ⟨h1, h2⟩ := ih (fun r hr => hmem r (List.mem_cons_of_mem _ hr)) _ htext
    rw [reviseWith_cons]
    refine ⟨h1, ?_⟩
    rw [Revision.replaced] at h2 ⊢
    rw [List.map_cons, Count.total, htally, h2]

/-- **Revising a revised text changes nothing**, and nothing is replaced. -/
theorem idempotent (ho : set.Orderly phrases) (text : List Char) :
    (set.revise (set.revise text).text).text = (set.revise text).text ∧
      (set.revise (set.revise text).text).replaced = 0 := by
  obtain ⟨layout, h⟩ := Layout.exists_describes set text _ le_rfl
  have htext : (set.revise text).text = layout.textAt set.rules.length := by
    rw [revise_text, h.texts _ le_rfl]
  refine ho.reviseWith_of_settled (fun j rule a f w b hsplit hr => ?_) set.rules (fun _ hr => hr)
    ⟨(set.revise text).text, []⟩ rfl
  exact h.not_redex ho _ le_rfl j (List.getElem?_eq_some_iff.1 hr.mem).1 rule a f w b
    (hsplit.trans htext) hr

end RuleSet.Orderly

end StyleTokens

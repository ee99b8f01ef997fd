/-
Places where a rule would replace something.

A rule finds a value behind a lead, and it replaces the value unless a comment
or the text behind it forbids that.  The rules considered here belong to a set
in which no two finds can overlap, not even a find and a value that has been
replaced, unless both have their value at the same place and come from the same
rule.

* `Phrase` — the leads of a rule, the values it reads behind them, and what may
  stand in their place;
* `Rule.Follows` — a rule whose matches are those of a phrase;
* `RuleSet.Orderly` — a rule set in which finds do not overlap;
* `Redex` — a place of a text where a rule would replace a value;
* `Redex.before_iff`, `Redex.of_behind` — the redexes around a value that has
  been replaced;
* `Redex.exchange` — once a value has been replaced, all other redexes are old
  ones.

Design notes: a value can be found behind several leads, one of which ends
another, and a match takes the longest of them.  That is why a redex has a
leftmost lead.
-/
import StyleTokens.Proofs.Revision.Comments

namespace StyleTokens

open Text

/-- What a rule looks for: a value behind a lead. -/
structure Phrase where
  /-- The leads, at the start of a text or behind a character. -/
  lead : Bool → List Char → Prop
  /-- `reads rest word`: behind a lead, the rule takes `word` from `rest`. -/
  reads : List Char → List Char → Prop
  /-- What may stand behind a lead in the end: a value, or what replaced it. -/
  bears : List Char → Prop

/-- The lead cannot be made longer to the left. -/
def Phrase.Leftmost (phrase : Phrase) (a f : List Char) : Prop :=
  ∀ a' f', a' ++ f' = a ++ f → phrase.lead a'.isEmpty f' → byteLength a ≤ byteLength a'

/-- A rule whose matches are those of a phrase, and what replaces its values. -/
structure Rule.Follows (rule : Rule) (table : TokenTable) (phrase : Phrase) : Prop where
  /-- A match is a lead and what is read behind it. -/
  of_mem : ∀ text, ∀ found ∈ rule.program.occurrences text, ∃ a f w b,
    text = a ++ (f ++ (w ++ b)) ∧ phrase.lead a.isEmpty f ∧ phrase.reads (w ++ b) w ∧
    found.span = ⟨byteLength a, byteLength (a ++ (f ++ w))⟩ ∧
    found.capture? valueGroup = some ⟨byteLength (a ++ f), byteLength (a ++ (f ++ w))⟩
  /-- Where a lead with a value begins, there is a match. -/
  covers : ∀ a f w b, phrase.lead a.isEmpty f → phrase.reads (w ++ b) w →
    ∃ found ∈ rule.program.occurrences (a ++ (f ++ (w ++ b))),
      found.span.start ≤ byteLength a ∧ byteLength a < found.span.stop
  colon : ∀ s f, phrase.lead s f → ':' ∈ f
  unique : ∀ rest w w', phrase.reads rest w → phrase.reads rest w' → w = w'
  /-- What is read does not depend on what stands behind a colon. -/
  cut : ∀ u tail tail' w, phrase.reads (u ++ ':' :: tail) w →
    phrase.reads (u ++ ':' :: tail') w
  bears_of_reads : ∀ rest w, phrase.reads rest w → phrase.bears w
  ne_nil : ∀ v, phrase.bears v → v ≠ []
  solid : ∀ rest w, phrase.reads rest w → ∀ c, w.head? = some c → isBlank c = false
  bears_text : ∀ rest w, phrase.reads rest w →
    (Substitution.ofValue table rule w).replaced ≠ 0 →
    phrase.bears (Substitution.ofValue table rule w).text
  /-- What is read in the text that replaced a value has no token. -/
  settled : ∀ rest w, phrase.reads rest w →
    (Substitution.ofValue table rule w).replaced ≠ 0 → ∀ w' b b',
    (Substitution.ofValue table rule w).text ++ b = w' ++ b' → phrase.reads (w' ++ b') w' →
    endsValue b'.head? = true → (Substitution.ofValue table rule w').replaced = 0
  /-- A value is exchanged from some place on, without harm to comments. -/
  inert : ∀ rest w, phrase.reads rest w →
    (Substitution.ofValue table rule w).replaced ≠ 0 → ∃ x y y', w = x ++ y ∧
      (Substitution.ofValue table rule w).text = x ++ y' ∧ y ≠ [] ∧ y.head? ≠ some '\n' ∧
      Comment.Inert y'

theorem Rule.Follows.solidValues {rule : Rule} {table : TokenTable} {phrase : Phrase}
    (h : rule.Follows table phrase) : rule.SolidValues := by
  intro text found hm value hv
  obtain ⟨a, f, w, b, rfl, -, hw, -, hcap⟩ := h.of_mem text found hm
  obtain rfl := Option.some.inj (hcap.symm.trans hv)
  have hslice := slice_append (a ++ f) w b
  simp only [byteLength_append, List.append_assoc, ← Nat.add_assoc] at hslice ⊢
  rw [hslice]
  exact h.solid _ w hw

/-- A rule set whose rules follow phrases, such that nothing that is read overlaps
what stands behind another lead. -/
structure RuleSet.Orderly (set : RuleSet) (phrases : Nat → Phrase) : Prop where
  follows : ∀ i (rule : Rule), set.rules[i]? = some rule → rule.Follows set.table (phrases i)
  apart : ∀ i j, i < set.rules.length → j < set.rules.length → ∀ a f w b a' f' v b',
    a ++ (f ++ (w ++ b)) = a' ++ (f' ++ (v ++ b')) →
    (phrases i).lead a.isEmpty f → (phrases i).reads (w ++ b) w →
    (phrases j).lead a'.isEmpty f' → (phrases j).bears v →
    byteLength a < byteLength (a' ++ (f' ++ v)) → byteLength a' < byteLength (a ++ (f ++ w)) →
    a ++ f = a' ++ f' ∧ i = j

/-- A place of the text `a ++ (f ++ (w ++ b))` where a rule would replace `w`. -/
structure Redex (set : RuleSet) (phrases : Nat → Phrase) (i : Nat) (rule : Rule)
    (a f w b : List Char) : Prop where
  mem : set.rules[i]? = some rule
  lead : (phrases i).lead a.isEmpty f
  reads : (phrases i).reads (w ++ b) w
  leftmost : (phrases i).Leftmost a f
  ended : endsValue b.head? = true
  free : Comment.FreeOf (Comment.spans (a ++ (f ++ (w ++ b)))) (byteLength a)
    (byteLength (a ++ (f ++ w)))
  replaced : (Substitution.ofValue set.table rule w).replaced ≠ 0

/-- Of two different matches of a text, one comes first. -/
theorem Program.apart_of_mem_occurrences {program : Program} {text : List Char} {m m' : Match}
    (hm : m ∈ program.occurrences text) (hm' : m' ∈ program.occurrences text) (hne : m ≠ m') :
    m.span.stop ≤ m'.span.start ∨ m'.span.stop ≤ m.span.start := by
  have hin := program.occurrences_apart text
  have key := List.Pairwise.forall_of_forall_of_flip
    (R := fun x y : Match => x = y ∨ x.span.stop ≤ y.span.start ∨ y.span.stop ≤ x.span.start)
    (fun _ _ => Or.inl rfl) (hin.imp fun h => Or.inr (Or.inl h))
    (hin.imp fun h => Or.inr (Or.inr h))
  exact (key hm hm').resolve_left hne

namespace RuleSet.Orderly

variable {set : RuleSet} {phrases : Nat → Phrase} (ho : set.Orderly phrases)
  {i : Nat} {rule : Rule} (hrule : set.rules[i]? = some rule)

include ho hrule

/-- Two finds of a rule that overlap have the same value. -/
theorem eq_of_overlap {a f w b a' f' w' b' : List Char}
    (htext : a ++ (f ++ (w ++ b)) = a' ++ (f' ++ (w' ++ b')))
    (hf : (phrases i).lead a.isEmpty f) (hw : (phrases i).reads (w ++ b) w)
    (hf' : (phrases i).lead a'.isEmpty f') (hw' : (phrases i).reads (w' ++ b') w')
    (h1 : byteLength a < byteLength (a' ++ (f' ++ w')))
    (h2 : byteLength a' < byteLength (a ++ (f ++ w))) :
    a ++ f = a' ++ f' ∧ w = w' ∧ b = b' := by
  have hi := (List.getElem?_eq_some_iff.1 hrule).1
  have hfollows := ho.follows i rule hrule
  obtain ⟨hfront, -⟩ := ho.apart i i hi hi a f w b a' f' w' b' htext hf hw hf'
    (hfollows.bears_of_reads _ _ hw') h1 h2
  have hrest : w ++ b = w' ++ b' := by
    rw [← List.append_assoc, ← List.append_assoc a', hfront] at htext
    exact List.append_cancel_left htext
  obtain rfl : w = w' := hfollows.unique _ _ _ hw (hrest ▸ hw')
  exact ⟨hfront, rfl, List.append_cancel_left hrest⟩

/-- A match has the longest lead that its value has. -/
theorem exists_of_mem {text : List Char} {found : Match}
    (hm : found ∈ rule.program.occurrences text) : ∃ a f w b,
      text = a ++ (f ++ (w ++ b)) ∧ (phrases i).lead a.isEmpty f ∧
      (phrases i).reads (w ++ b) w ∧ (phrases i).Leftmost a f ∧
      found.span = ⟨byteLength a, byteLength (a ++ (f ++ w))⟩ ∧
      found.capture? valueGroup = some ⟨byteLength (a ++ f), byteLength (a ++ (f ++ w))⟩ := by
  have hfollows := ho.follows i rule hrule
  obtain ⟨a, f, w, b, rfl, hf, hw, hspan, hcap⟩ := hfollows.of_mem text found hm
  refine ⟨a, f, w, b, rfl, hf, hw, ?_, hspan, hcap⟩
  intro a' f' hfront hf'
  by_contra hlt
  -- A longer lead would be covered by another match, with the same value.
  have htext : a' ++ (f' ++ (w ++ b)) = a ++ (f ++ (w ++ b)) := by
    rw [← List.append_assoc, hfront, List.append_assoc]
  have hwne := byteLength_pos (hfollows.ne_nil w (hfollows.bears_of_reads _ _ hw))
  have hlen := congrArg byteLength hfront
  obtain ⟨m, hm', h1, h2⟩ := hfollows.covers a' f' w b hf' hw
  rw [htext] at hm'
  obtain ⟨a2, f2, w2, b2, ht2, hf2, hw2, hspan2, -⟩ := hfollows.of_mem _ m hm'
  rw [hspan2] at h1 h2
  simp only [byteLength_append] at hlen h1 h2 hlt
  obtain ⟨hfront2, rfl, -⟩ := eq_of_overlap ho hrule (htext.trans ht2) hf' hw hf2 hw2
    (by simp only [byteLength_append]; omega) (by simp only [byteLength_append]; omega)
  have hlen2 := congrArg byteLength hfront2
  simp only [byteLength_append] at hlen2
  have hne : m ≠ found := by
    rintro rfl
    rw [hspan] at hspan2
    have := (Span.mk.inj hspan2).1
    omega
  have := Program.apart_of_mem_occurrences hm' hm hne
  rw [hspan, hspan2] at this
  simp only [byteLength_append] at this
  omega

/-- A value behind its longest lead is matched. -/
theorem exists_mem {a f w b : List Char} (hf : (phrases i).lead a.isEmpty f)
    (hw : (phrases i).reads (w ++ b) w) (hleft : (phrases i).Leftmost a f) :
    ∃ found ∈ rule.program.occurrences (a ++ (f ++ (w ++ b))),
      found.span = ⟨byteLength a, byteLength (a ++ (f ++ w))⟩ ∧
      found.capture? valueGroup = some ⟨byteLength (a ++ f), byteLength (a ++ (f ++ w))⟩ := by
  have hfollows := ho.follows i rule hrule
  obtain ⟨m, hm, h1, h2⟩ := hfollows.covers a f w b hf hw
  obtain ⟨a2, f2, w2, b2, ht2, hf2, hw2, hspan2, hcap2⟩ := hfollows.of_mem _ m hm
  have hwne := byteLength_pos (hfollows.ne_nil w (hfollows.bears_of_reads _ _ hw))
  rw [hspan2] at h1 h2
  simp only [byteLength_append] at h1 h2
  obtain ⟨hfront2, rfl, -⟩ := eq_of_overlap ho hrule ht2 hf hw hf2 hw2
    (by simp only [byteLength_append]; omega) (by simp only [byteLength_append]; omega)
  have hle := hleft a2 f2 hfront2.symm hf2
  obtain ⟨rfl, rfl⟩ := append_inj_of_byteLength hfront2 (by omega)
  exact ⟨m, hm, hspan2, hcap2⟩

end RuleSet.Orderly

/-- Comments that end before a place leave open what is free behind it. -/
theorem Comment.freeOf_shift {before later : List Span} {bytes : Nat}
    (h : ∀ span ∈ before, span.stop ≤ bytes) (start stop : Nat) :
    FreeOf (before ++ later.map (shift bytes)) (bytes + start) (bytes + stop) ↔
      FreeOf later start stop := by
  constructor
  · intro hfree span hs
    have := hfree (shift bytes span) (List.mem_append_right _ (List.mem_map_of_mem hs))
    simp only [shift] at this
    omega
  · intro hfree span hs
    rcases List.mem_append.1 hs with hs | hs
    · have := h span hs
      omega
    · obtain ⟨old, ho, rfl⟩ := List.mem_map.1 hs
      have := hfree old ho
      simp only [shift]
      omega

namespace Redex

variable {set : RuleSet} {phrases : Nat → Phrase} {i j : Nat} {rule other : Rule}
  {a f w b A F W B : List Char}

/-- The comments before and after the value of a redex is replaced. -/
theorem exists_spans (ho : set.Orderly phrases) (h : Redex set phrases i rule A F W B) :
    let new := (Substitution.ofValue set.table rule W).text
    ∃ before : List Span,
      Comment.spans (A ++ (F ++ (W ++ B))) =
        before ++ (Comment.spans B).map (Comment.shift (byteLength (A ++ (F ++ W)))) ∧
      Comment.spans (A ++ (F ++ (new ++ B))) =
        before ++ (Comment.spans B).map (Comment.shift (byteLength (A ++ (F ++ new)))) ∧
      (∀ span ∈ before, span.stop ≤ byteLength (A ++ (F ++ W))) ∧
      ∀ span ∈ before, span.stop ≤ byteLength (A ++ (F ++ new)) := by
  obtain ⟨x, y, y', hW, hnew, hy, hline, hinert⟩ :=
    (ho.follows i rule h.mem).inert _ _ h.reads h.replaced
  dsimp only
  rw [hnew]
  have hfree := h.free
  subst hW
  have hfree' : Comment.FreeOf (Comment.spans ((A ++ (F ++ x)) ++ (y ++ B)))
      (byteLength (A ++ (F ++ x))) (byteLength (A ++ (F ++ x)) + byteLength y) := fun span hs => by
    have := hfree span (by simpa using hs)
    simp only [byteLength_append] at this ⊢
    omega
  obtain ⟨before, h1, h2, h3⟩ := Comment.exists_spans_exchange hy hline hinert hfree'
  refine ⟨before, by simpa using h1, by simpa using h2, fun span hs => ?_, fun span hs => ?_⟩ <;>
    · have := h3 span hs
      simp only [byteLength_append] at this ⊢
      omega

/-- A redex does not depend on the text behind a lead that follows it. -/
theorem of_tail (ho : set.Orderly phrases) {c r r' : List Char}
    (h : Redex set phrases j other a f w (c ++ (F ++ r))) (hcolon : ':' ∈ F)
    (hfree : Comment.FreeOf (Comment.spans (a ++ (f ++ (w ++ (c ++ (F ++ r')))))) (byteLength a)
      (byteLength (a ++ (f ++ w)))) :
    Redex set phrases j other a f w (c ++ (F ++ r')) := by
  obtain ⟨g, g', rfl⟩ := List.append_of_mem hcolon
  refine ⟨h.mem, h.lead, ?_, h.leftmost, ?_, hfree, h.replaced⟩
  · have := (ho.follows j other h.mem).cut (w ++ (c ++ g)) (g' ++ r) (g' ++ r') w
      (by simpa using h.reads)
    simpa using this
  · have := h.ended
    rcases c with _ | ⟨d, c⟩
    · rcases g with _ | ⟨d, g⟩ <;> exact this
    · exact this

/-- The redexes before a value are the same once it has been replaced. -/
theorem before_iff (ho : set.Orderly phrases) {c : List Char}
    (h : Redex set phrases i rule A F W B) (hA : A = a ++ (f ++ (w ++ c))) :
    Redex set phrases j other a f w (c ++ (F ++ (W ++ B))) ↔
      Redex set phrases j other a f w
        (c ++ (F ++ ((Substitution.ofValue set.table rule W).text ++ B))) := by
  obtain ⟨before, hspans, hspans', -, -⟩ := h.exists_spans ho
  have hcolon := (ho.follows i rule h.mem).colon _ _ h.lead
  have hfree : ∀ V : List Char, Comment.FreeOf (before ++ (Comment.spans B).map
        (Comment.shift (byteLength (A ++ (F ++ V))))) (byteLength a) (byteLength (a ++ (f ++ w))) ↔
      Comment.FreeOf before (byteLength a) (byteLength (a ++ (f ++ w))) := fun V =>
    Comment.freeOf_append_shift (by simp only [hA, byteLength_append]; omega)
  have htext : ∀ V : List Char, a ++ (f ++ (w ++ (c ++ (F ++ (V ++ B))))) =
      A ++ (F ++ (V ++ B)) := fun V => by simp [hA]
  constructor
  · intro h'
    refine h'.of_tail ho hcolon ?_
    rw [htext, hspans', hfree, ← hfree W, ← hspans, ← htext]
    exact h'.free
  · intro h'
    refine h'.of_tail ho hcolon ?_
    rw [htext, hspans, hfree, ← hfree, ← hspans', ← htext]
    exact h'.free

/-- A redex behind a value that has been replaced was one before. -/
theorem of_behind (ho : set.Orderly phrases) {c : List Char} (h : Redex set phrases i rule A F W B)
    (hB : B = c ++ (f ++ (w ++ b)))
    (h' : Redex set phrases j other
      (A ++ (F ++ ((Substitution.ofValue set.table rule W).text ++ c))) f w b) :
    Redex set phrases j other (A ++ (F ++ (W ++ c))) f w b := by
  obtain ⟨before, hspans, hspans', hle, hle'⟩ := h.exists_spans ho
  set new := (Substitution.ofValue set.table rule W).text
  have hrule := ho.follows i rule h.mem
  have hother := ho.follows j other h'.mem
  have hne : ∀ V : List Char, (A ++ (F ++ V)).isEmpty = false := fun V => by
    rw [List.isEmpty_eq_false_iff]
    simp [List.ne_nil_of_mem (hrule.colon _ _ h.lead)]
  have hwne := byteLength_pos (hother.ne_nil w (hother.bears_of_reads _ _ h'.reads))
  have hWne := byteLength_pos (hrule.ne_nil W (hrule.bears_of_reads _ _ h.reads))
  have hlead := h'.lead
  rw [hne] at hlead
  refine ⟨h'.mem, by rwa [hne], h'.reads, ?_, h'.ended, ?_, h'.replaced⟩
  · intro a2 f2 hfront hf2
    by_contra hlt
    have hlen := congrArg byteLength hfront
    have htext2 : a2 ++ (f2 ++ (w ++ b)) = A ++ (F ++ (W ++ B)) := by
      rw [← List.append_assoc, hfront, hB]
      simp
    simp only [byteLength_append] at hlen hlt
    rcases Nat.lt_or_ge (byteLength a2) (byteLength (A ++ (F ++ W))) with hin | hout
    · -- A longer lead cannot reach over the old value.
      obtain ⟨hfront', -⟩ := ho.apart j i (List.getElem?_eq_some_iff.1 h'.mem).1
        (List.getElem?_eq_some_iff.1 h.mem).1 a2 f2 w b A F W B htext2 hf2 h'.reads h.lead
        (hrule.bears_of_reads _ _ h.reads) hin (by simp only [byteLength_append]; omega)
      have hlen' := congrArg byteLength hfront'
      simp only [byteLength_append] at hlen'
      omega
    · -- Behind the value, it would be a longer lead in the new text.
      obtain ⟨d, rfl, hd⟩ := append_eq_append_of_le
        (show (A ++ (F ++ W)) ++ (c ++ f) = a2 ++ f2 by rw [hfront]; simp) hout
      rw [List.append_assoc, List.append_assoc, hne] at hf2
      have := h'.leftmost (A ++ (F ++ (new ++ d))) f2 (by simp [hd]) (by rwa [hne])
      simp only [byteLength_append] at this hlt
      omega
  · have htext : ∀ V : List Char, A ++ (F ++ (V ++ c)) ++ (f ++ (w ++ b)) =
        A ++ (F ++ (V ++ B)) := fun V => by simp [hB]
    have hstart : ∀ V : List Char, byteLength (A ++ (F ++ (V ++ c))) =
        byteLength (A ++ (F ++ V)) + byteLength c := fun V => by simp [Nat.add_assoc]
    have hstop : ∀ V : List Char, byteLength (A ++ (F ++ (V ++ c)) ++ (f ++ w)) =
        byteLength (A ++ (F ++ V)) + byteLength (c ++ (f ++ w)) := fun V => by
      simp [Nat.add_assoc]
    have hfree := h'.free
    rw [htext, hspans', hstart, hstop, Comment.freeOf_shift hle'] at hfree
    rw [htext, hspans, hstart, hstop, Comment.freeOf_shift hle]
    exact hfree

/-- **Once a value has been replaced, all other redexes are old ones.**  A redex
of the new text lies before the value or behind it, and it was a redex there
before. -/
theorem exchange (ho : set.Orderly phrases) (h : Redex set phrases i rule A F W B)
    (h' : Redex set phrases j other a f w b)
    (htext : a ++ (f ++ (w ++ b)) =
      A ++ (F ++ ((Substitution.ofValue set.table rule W).text ++ B))) :
    (∃ c, A = a ++ (f ++ (w ++ c)) ∧
      Redex set phrases j other a f w (c ++ (F ++ (W ++ B)))) ∨
    ∃ c, B = c ++ (f ++ (w ++ b)) ∧
      Redex set phrases j other (A ++ (F ++ (W ++ c))) f w b := by
  set new := (Substitution.ofValue set.table rule W).text with hnew
  have hrule := ho.follows i rule h.mem
  have hi := (List.getElem?_eq_some_iff.1 h.mem).1
  have hj := (List.getElem?_eq_some_iff.1 h'.mem).1
  by_cases hover : byteLength a < byteLength (A ++ (F ++ new)) ∧
      byteLength A < byteLength (a ++ (f ++ w))
  · -- At the value itself nothing is left to replace.
    exfalso
    obtain ⟨hfront, rfl⟩ := ho.apart j i hj hi a f w b A F new B htext h'.lead h'.reads h.lead
      (hrule.bears_text _ _ h.reads h.replaced) hover.1 hover.2
    obtain rfl : rule = other := Option.some.inj (h.mem.symm.trans h'.mem)
    have hrest : new ++ B = w ++ b := by
      rw [← List.append_assoc, ← List.append_assoc A, hfront] at htext
      exact (List.append_cancel_left htext).symm
    exact h'.replaced (hrule.settled _ _ h.reads h.replaced w B b hrest h'.reads h'.ended)
  · rw [not_and_or, not_lt, not_lt] at hover
    rcases hover with hright | hleft
    · right
      obtain ⟨c, rfl, hB⟩ := append_eq_append_of_le
        (show (A ++ (F ++ new)) ++ B = a ++ (f ++ (w ++ b)) by rw [htext]; simp) hright
      refine ⟨c, hB, h.of_behind ho hB ?_⟩
      rwa [List.append_assoc, List.append_assoc] at h'
    · left
      obtain ⟨c, hA, rfl⟩ := append_eq_append_of_le
        (show (a ++ (f ++ w)) ++ b = A ++ (F ++ (new ++ B)) by rw [← htext]; simp) hleft
      rw [List.append_assoc, List.append_assoc] at hA
      exact ⟨c, hA, (h.before_iff ho hA).2 h'⟩

end Redex

end StyleTokens

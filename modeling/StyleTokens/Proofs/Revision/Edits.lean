/-
Edits that fit a text.

Edits fit when they follow one another and each of them exchanges a part of the text
that is not empty.  Such edits can be looked at one stretch of the text at a time: an
offset inside none of them cuts the text, the edits and the new text alike.

* `Edit.Fits` — edits that fit a text;
* `Edit.Clear` — an offset inside none of them;
* `Edit.copied` — the spans that stand between edits and stay as they are;
* `Edit.Fits.splice_eq_weave` — the new text is what was copied and what the edits
  bring in, in turn;
* `Edit.Fits.exists_cut` — such an offset cuts text, edits and new text;
* `Edit.Fits.relocate_span` — a span with such ends becomes a span of the new text.

Design notes: edits and text are taken apart together, from the left, so every
proof is by induction on `Fits`.
-/
import StyleTokens.Proofs.Revision.Layout

namespace StyleTokens

open Text Layout

namespace Edit

/-- The edits follow one another in a text that begins at `offset`, and each of them
exchanges a part that is not empty. -/
inductive Fits : (offset : Nat) → List Edit → List Char → Prop
  | nil (offset : Nat) (text : List Char) : Fits offset [] text
  | cons {offset : Nat} {u v new rest : List Char} {edits : List Edit} (old_ne : v ≠ [])
      (later : Fits (offset + byteLength u + byteLength v) edits rest) :
      Fits offset
        (⟨⟨offset + byteLength u, offset + byteLength u + byteLength v⟩, new⟩ :: edits)
        (u ++ (v ++ rest))

/-- An offset inside none of the edits. -/
def Clear (edits : List Edit) (offset : Nat) : Prop :=
  ∀ edit ∈ edits, edit.span.stop ≤ offset ∨ offset ≤ edit.span.start

/-- The spans between edits, in a text from `offset` up to `stop`. -/
def copied (stop : Nat) : (offset : Nat) → List Edit → List Span
  | offset, [] => [⟨offset, stop⟩]
  | offset, edit :: edits => ⟨offset, edit.span.start⟩ :: copied stop edit.span.stop edits

/-- What is copied and what is brought in, in turn. -/
def weave : (copies news : List (List Char)) → List Char
  | copy :: copies, new :: news => copy ++ (new ++ weave copies news)
  | copies, [] => copies.flatten
  | [], news => news.flatten

namespace Fits

variable {offset : Nat} {edits : List Edit} {text : List Char}

/-- Splicing copies the spans between the edits. -/
theorem splice_eq_weave (h : Fits offset edits text) : ∀ pre : List Char,
    byteLength pre = offset →
    splice offset edits text =
      weave ((copied (byteLength (pre ++ text)) offset edits).map (slice · (pre ++ text)))
        (edits.map (·.text)) := by
  induction h with
  | nil offset text =>
    rintro pre rfl
    have := slice_append pre text []
    rw [List.append_nil] at this
    simp [splice, copied, weave, this]
  | @cons offset u v new rest edits _ _ ih =>
    rintro pre rfl
    have hrest := ih (pre ++ (u ++ v)) (by simp [Nat.add_assoc])
    simp only [List.append_assoc] at hrest
    rw [splice_cons, hrest]
    simp only [copied, List.map_cons, weave, slice_append]

/-- The spans between the edits lie in the text, in order. -/
theorem copied_inText (h : Fits offset edits text) : ∀ pre : List Char,
    byteLength pre = offset →
    ∀ span ∈ copied (byteLength (pre ++ text)) offset edits, span.InText (pre ++ text) := by
  induction h with
  | nil offset text =>
    rintro pre rfl span hspan
    obtain rfl := List.mem_singleton.1 hspan
    exact ⟨isBoundary_append _ _, ⟨pre ++ text, [], by simp, rfl⟩, by simp⟩
  | @cons offset u v new rest edits _ _ ih =>
    rintro pre rfl span hspan
    rcases List.mem_cons.1 hspan with rfl | hspan
    · exact ⟨isBoundary_append _ _, ⟨pre ++ u, v ++ rest, by simp, by simp⟩, by simp⟩
    · have := ih (pre ++ (u ++ v)) (by simp [Nat.add_assoc]) span
      simp only [List.append_assoc] at this
      exact this hspan

/-- The edits lie between the ends of the text. -/
theorem bounds (h : Fits offset edits text) {edit : Edit} (he : edit ∈ edits) :
    offset ≤ edit.span.start ∧ edit.span.start < edit.span.stop ∧
      edit.span.stop ≤ offset + byteLength text := by
  induction h with
  | nil => simp at he
  | cons old_ne _ ih =>
    have := byteLength_pos old_ne
    simp only [byteLength_append]
    rcases List.mem_cons.1 he with rfl | he
    · dsimp only
      omega
    · have := ih he
      omega

/-- The new text makes up for what the edits bring in and take out. -/
theorem byteLength_splice (h : Fits offset edits text) :
    byteLength (splice offset edits text) + lost edits = byteLength text + gained edits := by
  induction h with
  | nil => rfl
  | cons _ _ ih =>
    rw [splice_cons]
    simp only [byteLength_append, lost, gained, List.map_cons, Count.total, Span.length] at ih ⊢
    omega

/-- The edits take out no more than there is. -/
theorem lost_le (h : Fits offset edits text) : lost edits ≤ byteLength text := by
  induction h with
  | nil => exact Nat.zero_le _
  | cons _ _ ih =>
    simp only [byteLength_append, lost, List.map_cons, Count.total, Span.length] at ih ⊢
    omega

/-- What the edits take out before an offset is no more than there is before it. -/
theorem lost_filter_le (h : Fits offset edits text) (stop : Nat) :
    offset + lost (edits.filter (·.span.stop ≤ stop)) ≤ max offset stop := by
  induction h with
  | nil => simp [lost, Count.total]
  | @cons offset u v new rest edits _ _ ih =>
    simp only [List.filter_cons]
    split
    · next hle =>
      simp only [decide_eq_true_eq] at hle
      simp only [lost, List.map_cons, Count.total, Span.length] at ih ⊢
      omega
    · next hlt =>
      simp only [decide_eq_true_eq] at hlt
      omega

/-- A text that is not empty does not become empty if the edits bring in something. -/
theorem splice_ne_nil (h : Fits offset edits text) (hnew : ∀ e ∈ edits, e.text ≠ [])
    (hne : text ≠ []) : splice offset edits text ≠ [] := by
  cases h with
  | nil => exact hne
  | cons _ _ =>
    rw [splice_cons]
    simpa using fun _ hnil => absurd hnil (hnew _ List.mem_cons_self)

/-- An offset inside no edit cuts the text, the edits and the new text. -/
theorem exists_cut (h : Fits offset edits text) : ∀ {a b : List Char}, text = a ++ b →
    Clear edits (offset + byteLength a) →
    ∃ first second, edits = first ++ second ∧ Fits offset first a ∧
      Fits (offset + byteLength a) second b ∧
      splice offset edits text = splice offset first a ++ splice (offset + byteLength a) second b := by
  induction h with
  | nil offset text =>
    rintro a b rfl _
    exact ⟨[], [], rfl, .nil _ _, .nil _ _, rfl⟩
  | @cons offset u v new rest edits old_ne later ih =>
    intro a b htext hclear
    have hv := byteLength_pos old_ne
    rcases hclear _ List.mem_cons_self with hpast | hahead
    · -- The cut comes behind the first edit.
      dsimp only at hpast
      obtain ⟨a, rfl, rfl⟩ := append_eq_append_of_le
        (show u ++ v ++ rest = a ++ b by rw [← htext, List.append_assoc])
        (by rw [byteLength_append]; omega)
      have hlen : offset + byteLength u + byteLength v + byteLength a =
          offset + byteLength (u ++ v ++ a) := by
        simp only [byteLength_append]
        omega
      obtain ⟨first, second, rfl, hfirst, hsecond, hsplice⟩ := ih rfl fun e he => by
        rw [hlen]
        exact hclear e (List.mem_cons_of_mem _ he)
      rw [hlen] at hsecond hsplice
      rw [List.append_assoc u v a]
      refine ⟨_ :: first, second, rfl, .cons old_ne hfirst,
        by rwa [← List.append_assoc u v a], ?_⟩
      rw [splice_cons, splice_cons, hsplice]
      simp only [List.append_assoc]
    · -- All edits come behind the cut.
      dsimp only at hahead
      obtain ⟨m, rfl, rfl⟩ := append_eq_append_of_le htext.symm (by omega)
      have hlen : offset + byteLength (a ++ m) = offset + byteLength a + byteLength m := by
        rw [byteLength_append, Nat.add_assoc]
      rw [hlen] at later ⊢
      refine ⟨[], _, rfl, .nil _ _, .cons old_ne later, ?_⟩
      rw [splice_cons, ← hlen, splice_cons, splice, List.append_assoc]

end Fits

/-- Where an offset lies that is inside no edit, and what comes before it. -/
theorem Fits.relocate_cut {edits first second : List Edit} {a b : List Char}
    (hedits : edits = first ++ second) (hfirst : Fits 0 first a)
    (hsecond : Fits (byteLength a) second b) :
    relocate edits (byteLength a) = byteLength (splice 0 first a) := by
  rw [hedits, relocate_append]
  · have := hfirst.byteLength_splice
    have := hfirst.lost_le
    omega
  · intro e he
    have := hfirst.bounds he
    omega
  · intro e he
    have := hsecond.bounds he
    omega

/-- A stretch of a text whose ends are inside no edit, and what becomes of it. -/
theorem Fits.exists_stretch {edits : List Edit} {a m b : List Char}
    (h : Fits 0 edits (a ++ (m ++ b)))
    (hstart : Clear edits (byteLength a)) (hstop : Clear edits (byteLength a + byteLength m)) :
    ∃ a' m' b', splice 0 edits (a ++ (m ++ b)) = a' ++ (m' ++ b') ∧
      relocate edits (byteLength a) = byteLength a' ∧
      relocate edits (byteLength a + byteLength m) = byteLength a' + byteLength m' ∧
      ((∀ e ∈ edits, e.text ≠ []) → m ≠ [] → m' ≠ []) := by
  obtain ⟨first, others, rfl, hfirst, hothers, hsplice⟩ := h.exists_cut rfl (by simpa using hstart)
  rw [Nat.zero_add] at hothers hsplice
  obtain ⟨second, third, rfl, hsecond, hthird, hsplice'⟩ := hothers.exists_cut rfl
    fun e he => hstop e (List.mem_append_right _ he)
  refine ⟨splice 0 first a, splice (byteLength a) second m,
    splice (byteLength a + byteLength m) third b, by rw [hsplice, hsplice'],
    relocate_cut rfl hfirst hothers, ?_, fun hnew => hsecond.splice_ne_nil fun e he =>
      hnew e (List.mem_append_right _ (List.mem_append_left _ he))⟩
  rw [← List.append_assoc, relocate_append]
  · rw [gained_append, lost_append]
    have := hfirst.byteLength_splice
    have := hsecond.byteLength_splice
    have := hfirst.lost_le
    have := hsecond.lost_le
    omega
  · intro e he
    rcases List.mem_append.1 he with he | he
    · have := hfirst.bounds he
      omega
    · have := hsecond.bounds he
      omega
  · intro e he
    have := hthird.bounds he
    omega

/-- A span whose ends are inside no edit becomes a span of the new text, and no empty
one if it is not empty and the edits bring in something. -/
theorem Fits.relocate_span {edits : List Edit} {text : List Char} {span : Span}
    (h : Fits 0 edits text) (hin : span.InText text) (hstart : Clear edits span.start)
    (hstop : Clear edits span.stop) :
    (span.relocate edits).InText (splice 0 edits text) ∧
      ((∀ e ∈ edits, e.text ≠ []) → span.start < span.stop →
        (span.relocate edits).start < (span.relocate edits).stop) := by
  obtain ⟨a, m, b, rfl, rfl, -⟩ := hin.parts
  obtain ⟨a', m', b', hsplice, hs, ht, hne⟩ := h.exists_stretch hstart hstop
  rw [hsplice, Span.relocate, hs, ht]
  refine ⟨⟨isBoundary_append _ _, ⟨a' ++ m', b', by simp, by simp⟩, by simp⟩, fun hnew hlt => ?_⟩
  have hm : m ≠ [] := by
    rintro rfl
    simp at hlt
  have := byteLength_pos (hne hnew hm)
  dsimp only
  omega

end Edit

end StyleTokens

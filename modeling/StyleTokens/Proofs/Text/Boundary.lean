/-
Character boundaries of a text.

An offset that lies between two characters splits the text, and a span between
two such offsets cuts a part out of it.  Characters take one to four bytes, so an end of just the
number of bytes that is asked for need not begin between two characters.  The cut then moves on to
the next character.

* `utf8ByteSize_eq` — the bytes of a text;
* `IsBoundary` — an offset between two characters, or at an end of the text;
* `Span.InText` — a span between two boundaries;
* `Span.InText.parts` — what such a span makes of the text;
* `append_eq_append_of_le` — of two ways to split a text, the earlier one splits
  the first part of the later one;
* `IsTail`, `isTail_keepTail` — the longest end of a text that takes at most so many bytes;
* `exists_cut`, `le_byteLength_keepTail` — the cut moves over three bytes at most.
-/
import Mathlib.Tactic
import StyleTokens.Text.Bytes

namespace StyleTokens

namespace Text

theorem byteLength_pos {text : List Char} (h : text ≠ []) : 0 < byteLength text := by
  match text with
  | [] => exact absurd rfl h
  | c :: rest =>
    have := c.utf8Size_pos
    rw [byteLength]
    omega

@[simp] theorem byteLength_eq_zero {text : List Char} : byteLength text = 0 ↔ text = [] := by
  constructor
  · intro h
    by_contra hne
    have := byteLength_pos hne
    omega
  · rintro rfl
    rfl

theorem size_utf8Encode (text : List Char) : text.utf8Encode.size = byteLength text := by
  induction text with
  | nil => rfl
  | cons c rest ih =>
    rw [List.utf8Encode_cons, ByteArray.size_append, ih, List.utf8Encode_singleton, byteLength,
      List.size_toByteArray, String.length_utf8EncodeChar]

theorem utf8ByteSize_eq (text : String) : text.utf8ByteSize = byteLength text.toList := by
  rw [← size_utf8Encode, ← String.toByteArray_ofList, String.ofList_toList,
    String.size_toByteArray]

theorem byteLength_le_of_sublist {some all : List Char} (h : some.Sublist all) :
    byteLength some ≤ byteLength all := by
  induction h with
  | slnil => exact Nat.le_refl _
  | cons c _ ih =>
    rw [byteLength]
    omega
  | cons_cons c _ ih =>
    rw [byteLength, byteLength]
    omega

/-- An offset between two characters of a text, or at one of its ends. -/
def IsBoundary (text : List Char) (offset : Nat) : Prop :=
  ∃ a b, text = a ++ b ∧ byteLength a = offset

theorem isBoundary_append (a b : List Char) : IsBoundary (a ++ b) (byteLength a) :=
  ⟨a, b, rfl, rfl⟩

theorem IsBoundary.le {text : List Char} {offset : Nat} (h : IsBoundary text offset) :
    offset ≤ byteLength text := by
  obtain ⟨a, b, rfl, rfl⟩ := h
  simp

/-- Of two ways to split a text, the earlier one splits the first part of the
later one. -/
theorem append_eq_append_of_le {a b c d : List Char} (h : a ++ b = c ++ d)
    (hle : byteLength a ≤ byteLength c) : ∃ m, c = a ++ m ∧ b = m ++ d := by
  rcases List.append_eq_append_iff.1 h with ⟨m, hc, hb⟩ | ⟨m, ha, hd⟩
  · exact ⟨m, hc, hb⟩
  · have hm : m = [] := by
      rw [ha, byteLength_append] at hle
      exact byteLength_eq_zero.1 (by omega)
    subst hm
    exact ⟨[], by simpa using ha.symm, by simpa using hd.symm⟩

theorem append_inj_of_byteLength {a b c d : List Char} (h : a ++ b = c ++ d)
    (hl : byteLength a = byteLength c) : a = c ∧ b = d := by
  obtain ⟨m, hc, hb⟩ := append_eq_append_of_le h hl.le
  have hm : m = [] := by
    rw [hc, byteLength_append] at hl
    exact byteLength_eq_zero.1 (by omega)
  subst hm
  exact ⟨by simpa using hc.symm, by simpa using hb⟩

theorem slice_append (a m b : List Char) :
    slice ⟨byteLength a, byteLength a + byteLength m⟩ (a ++ (m ++ b)) = m := by
  rw [slice, Span.length, dropBytes_byteLength, Nat.add_sub_cancel_left, takeBytes_byteLength]

end Text

open Text

/-- A span that runs from one boundary of a text to another one. -/
structure Span.InText (span : Span) (text : List Char) : Prop where
  start : IsBoundary text span.start
  stop : IsBoundary text span.stop
  ordered : span.start ≤ span.stop

/-- The text before, in and after a span. -/
theorem Span.InText.parts {span : Span} {text : List Char} (h : span.InText text) :
    ∃ a m b, text = a ++ (m ++ b) ∧ span = ⟨byteLength a, byteLength a + byteLength m⟩ ∧
      slice span text = m := by
  obtain ⟨a, r, hr, ha⟩ := h.start
  obtain ⟨c, b, hb, hc⟩ := h.stop
  obtain ⟨m, rfl, rfl⟩ := append_eq_append_of_le (hr.symm.trans hb)
    (by rw [ha, hc]; exact h.ordered)
  have hs : span = ⟨byteLength a, byteLength a + byteLength m⟩ := by
    rw [byteLength_append] at hc
    rw [hc, ha]
  refine ⟨a, m, b, hr, hs, ?_⟩
  rw [hs, hr, slice_append]

/-! ### The end of a text that fits a number of bytes -/

namespace Text

variable {n limit : Nat} {text tail a b : List Char}

/-- The longest end of a text that takes at most so many bytes.  It consists of characters of
the text, so it begins between two of them. -/
structure IsTail (limit : Nat) (text tail : List Char) : Prop where
  suffix : tail <:+ text
  fits : byteLength tail ≤ limit
  longest : ∀ other, other <:+ text → byteLength other ≤ limit → other <:+ tail

/-- There is one such end at most. -/
theorem IsTail.unique {other : List Char} (h : IsTail limit text tail)
    (hother : IsTail limit text other) : tail = other :=
  (hother.longest tail h.suffix h.fits).eq_of_length_le
    (h.longest other hother.suffix hother.fits).length_le

/-! ### The part before the cut -/

/-- The part before an offset reaches up to it. -/
theorem le_byteLength_takeBytes (h : n ≤ byteLength text) : n ≤ byteLength (takeBytes n text) := by
  induction text generalizing n with
  | nil => simpa [takeBytes] using h
  | cons c text ih =>
    rcases Nat.eq_zero_or_pos n with rfl | hn
    · exact Nat.zero_le _
    · rw [takeBytes, if_neg hn.ne', byteLength]
      rw [byteLength] at h
      have := ih (n := n - c.utf8Size) (by omega)
      omega

/-- It ends less than a character behind the offset. -/
theorem byteLength_takeBytes_le (n : Nat) (text : List Char) :
    byteLength (takeBytes n text) ≤ n + 3 := by
  induction text generalizing n with
  | nil => exact Nat.zero_le _
  | cons c text ih =>
    rcases Nat.eq_zero_or_pos n with rfl | hn
    · simp
    · rw [takeBytes, if_neg hn.ne', byteLength]
      have hc := c.utf8Size_le_four
      rcases Nat.le_total c.utf8Size n with hle | hle
      · have := ih (n - c.utf8Size)
        omega
      · rw [Nat.sub_eq_zero_of_le hle, takeBytes_zero, byteLength_nil]
        omega

/-- And it is the least part that reaches up to the offset. -/
theorem takeBytes_least (h : n ≤ byteLength a) : takeBytes n (a ++ b) <+: a := by
  induction a generalizing n with
  | nil =>
    obtain rfl : n = 0 := by simpa using h
    simp
  | cons c a ih =>
    rw [List.cons_append, takeBytes]
    split
    · exact List.nil_prefix
    · rw [byteLength] at h
      exact (List.prefix_cons_inj c).2 (ih (by omega))

/-! ### What is kept -/

theorem byteLength_takeBytes_add (n : Nat) (text : List Char) :
    byteLength (takeBytes n text) + byteLength (dropBytes n text) = byteLength text := by
  rw [← byteLength_append, takeBytes_append_dropBytes]

/-- A text that fits is kept as it is. -/
theorem keepTail_of_le (h : byteLength text ≤ limit) : keepTail limit text = text := by
  rw [keepTail, Nat.sub_eq_zero_of_le h, dropBytes_zero]

/-- **The longest end that fits is kept.** -/
theorem isTail_keepTail (limit : Nat) (text : List Char) :
    IsTail limit text (keepTail limit text) := by
  have hadd := byteLength_takeBytes_add (byteLength text - limit) text
  refine ⟨⟨_, takeBytes_append_dropBytes (byteLength text - limit) text⟩, ?_, ?_⟩
  · have := le_byteLength_takeBytes (Nat.sub_le (byteLength text) limit)
    rw [keepTail]
    omega
  · -- what stands before another end that fits reaches up to the offset too
    rintro other ⟨front, rfl⟩ hfits
    have hle : byteLength (front ++ other) - limit ≤ byteLength front := by
      rw [byteLength_append]
      omega
    obtain ⟨middle, hfront⟩ := takeBytes_least (b := other) hle
    have hall := takeBytes_append_dropBytes (byteLength (front ++ other) - limit) (front ++ other)
    refine ⟨middle, ?_⟩
    rw [keepTail]
    generalize takeBytes (byteLength (front ++ other) - limit) (front ++ other) = before at *
    have hsame : before ++ dropBytes (byteLength (front ++ other) - limit) (front ++ other) =
        before ++ (middle ++ other) := by
      rw [hall, ← List.append_assoc, hfront]
    exact (List.append_cancel_left hsame).symm

/-- No offset between the one asked for and the cut lies between two characters. -/
theorem byteLength_takeBytes_le_of_isBoundary {offset : Nat} (hle : n ≤ offset)
    (h : IsBoundary text offset) : byteLength (takeBytes n text) ≤ offset := by
  obtain ⟨front, rest, rfl, rfl⟩ := h
  exact byteLength_le_of_sublist (takeBytes_least hle).sublist

/-- **The cut comes to an end**: of the offsets from the first one on at which an end would fit,
it is at the first that lies between two characters, and one of four in a row does. -/
theorem exists_cut (h : limit < byteLength text) : ∃ skipped ≤ 3,
    (∀ k < skipped, ¬ IsBoundary text (byteLength text - limit + k)) ∧
      IsBoundary text (byteLength text - limit + skipped) ∧
      keepTail limit text = dropBytes (byteLength text - limit + skipped) text ∧
      byteLength (keepTail limit text) + skipped = limit := by
  have hnear := byteLength_takeBytes_le (byteLength text - limit) text
  have hadd := byteLength_takeBytes_add (byteLength text - limit) text
  have hall := takeBytes_append_dropBytes (byteLength text - limit) text
  obtain ⟨skipped, hskipped⟩ := Nat.exists_eq_add_of_le
    (le_byteLength_takeBytes (Nat.sub_le (byteLength text) limit))
  rw [keepTail]
  refine ⟨skipped, by omega, fun k hk hmeet => ?_, ⟨_, _, hall.symm, hskipped⟩, ?_, by omega⟩
  · have := byteLength_takeBytes_le_of_isBoundary (Nat.le_add_right _ _) hmeet
    omega
  · have hcut := dropBytes_byteLength (takeBytes (byteLength text - limit) text)
      (dropBytes (byteLength text - limit) text)
    rw [hall, hskipped] at hcut
    exact hcut.symm

/-- **Of a text that is too long, at most three bytes less are kept than might be.** -/
theorem le_byteLength_keepTail (h : limit < byteLength text) :
    limit ≤ byteLength (keepTail limit text) + 3 := by
  obtain ⟨skipped, hskipped, -, -, -, hlength⟩ := exists_cut h
  omega

end Text

end StyleTokens

/-
The key of a literal is a normal form.

A literal can be spelled in many ways: with white space around it, in either case, a color with
white space anywhere, a length in any unit.  All spellings have one key, and the key is a
spelling of the literal itself.

* `key_key` — the key of a key is the key;
* `key_surround`, `key_eq_of_lowered`, `colorKey_eq_of_solid` — what a key does not see;
* `lengthKey_append` — nor does it see what stands behind the number of a length;
* `key_normal` — all of it, and what that makes of a lookup.

Design notes: a length without a number is its own key, and so is one that is nothing but plus
signs in front of a unit.  What stands behind the number is looked at in the text as it is
trimmed, since white space in front of a unit does not make another number.
-/
import Mathlib
import StyleTokens.Proofs.Table.LengthKeys
import StyleTokens.Proofs.Text.Runs

namespace StyleTokens

open Text

namespace Literal

variable {literal other front back rest unit : List Char}

/-! ### Case -/

/-- What holds of no letter does not see the case. -/
theorem apply_toLower {p : Char → Bool} (h : ∀ c, c.isAlpha = true → p c = false) (c : Char) :
    p c.toLower = p c := by
  cases hupper : c.isUpper with
  | false => rw [Char.toLower_eq_of_not_isUpper (by simp [hupper])]
  | true =>
    have halpha : c.isAlpha = true := by simp [Char.isAlpha, hupper]
    rw [h c halpha, h _ (by rw [Char.isAlpha_toLower_eq_isAlpha, halpha])]

theorem isBlank_of_isAlpha {c : Char} (h : c.isAlpha = true) : isBlank c = false := by
  have hrange : 65 ≤ c.toNat ∧ c.toNat ≤ 90 ∨ 97 ≤ c.toNat ∧ c.toNat ≤ 122 := by
    simpa [Char.isAlpha, Char.isUpper, Char.isLower, UInt32.le_iff_toNat_le, ← Char.toNat_val]
      using h
  exact isBlank_of_visible (by omega) (by omega)

/-- White space has no case. -/
theorem isBlank_toLower (c : Char) : isBlank c.toLower = isBlank c :=
  apply_toLower (fun _ => isBlank_of_isAlpha) c

theorem isNumberSign_of_isUnitSign {c : Char} (h : isUnitSign c = true) :
    isNumberSign c = false := by
  by_contra hnumber
  rw [isUnitSign_of_isNumberSign (by simpa using hnumber)] at h
  cases h

/-- The signs of numbers have no case. -/
theorem isNumberSign_toLower (c : Char) : isNumberSign c.toLower = isNumberSign c :=
  apply_toLower (fun d (h : d.isAlpha = true) =>
    isNumberSign_of_isUnitSign (show isUnitSign d = true by simp [isUnitSign, h])) c

theorem toLower_of_isNumberSign {c : Char} (h : isNumberSign c = true) : c.toLower = c := by
  have hupper : ¬ c.isUpper := fun hupper => by
    have hletter : isUnitSign c = true := by simp [isUnitSign, Char.isAlpha, hupper]
    rw [isNumberSign_of_isUnitSign hletter] at h
    cases h
  exact Char.toLower_eq_of_not_isUpper hupper

/-- Nor have numbers. -/
theorem lowered_of_signs {text : List Char} (h : ∀ c ∈ text, isNumberSign c = true) :
    text.map Char.toLower = text := by
  conv_rhs => rw [← List.map_id text]
  exact List.map_congr_left fun c hc => toLower_of_isNumberSign (h c hc)

theorem isBlank_of_isNumberSign {c : Char} (h : isNumberSign c = true) : isBlank c = false := by
  have hrange : 48 ≤ c.toNat ∧ c.toNat ≤ 57 ∨ c.toNat = 46 ∨ c.toNat = 45 ∨ c.toNat = 43 := by
    simp only [isNumberSign, Bool.or_eq_true, beq_iff_eq, Char.isDigit_iff_toNat] at h
    rcases h with ((hdigit | rfl) | rfl) | rfl
    · exact Or.inl hdigit
    all_goals decide
  exact isBlank_of_visible (by omega) (by omega)

/-- **Trimming and lowering may change places.** -/
theorem trim_map_toLower (text : List Char) :
    trim (text.map Char.toLower) = (trim text).map Char.toLower := by
  have hcase : isBlank ∘ Char.toLower = isBlank := funext isBlank_toLower
  rw [trim, trimLeft, List.dropWhile_map, hcase, trimRight, ← List.map_reverse,
    List.dropWhile_map, hcase, ← List.map_reverse]
  rfl

theorem lowered_lowered (text : List Char) :
    (text.map Char.toLower).map Char.toLower = text.map Char.toLower := by
  simp [Char.toLower_toLower_eq_toLower]

/-! ### Colors -/

/-- White space may be left out of a color before its letters are lowered, or after. -/
theorem colorKey_eq_filter (literal : List Char) :
    colorKey literal = (literal.map Char.toLower).filter (!isBlank ·) := by
  rw [List.filter_map, colorKey]
  simp only [Function.comp_def, isBlank_toLower]

/-- The key of a color holds no white space and no capitals, so it is its own key. -/
theorem colorKey_colorKey (literal : List Char) :
    colorKey (colorKey literal) = colorKey literal := by
  rw [colorKey, colorKey_eq_filter, List.filter_filter]
  simp only [Bool.and_self]
  rw [← colorKey_eq_filter, colorKey, lowered_lowered]

/-- **White space in a color does not count**, wherever it is. -/
theorem colorKey_eq_of_solid
    (h : literal.filter (!isBlank ·) = other.filter (!isBlank ·)) :
    colorKey literal = colorKey other := by
  rw [colorKey, h, colorKey]

theorem colorKey_eq_of_lowered (h : literal.map Char.toLower = other.map Char.toLower) :
    colorKey literal = colorKey other := by
  rw [colorKey_eq_filter, h, colorKey_eq_filter]

/-! ### Lengths -/

theorem whole_whole (literal : List Char) : whole (whole literal) = whole literal := by
  rw [whole, whole, trim_map_toLower, trim_trim, lowered_lowered]

/-- A number is all of itself. -/
theorem whole_number (literal : List Char) : whole (number literal) = number literal := by
  have hall : ∀ c ∈ number literal, isNumberSign c = true := fun c hc => List.mem_takeWhile_imp hc
  have htrim : trim (number literal) = number literal := by
    by_cases hne : number literal = []
    · rw [hne]
      rfl
    · have := trim_append_of_solid hne (fun c hc => isBlank_of_isNumberSign (hall c hc)) []
      simpa [trimRight] using this
  rw [whole, htrim, lowered_of_signs hall]

/-- **The key of a length is a spelling of it.** -/
theorem alike_lengthKey (literal : List Char) : Alike (lengthKey literal) literal := by
  rw [lengthKey_eq]
  split
  · exact Or.inl (whole_whole literal)
  · next hnumber =>
    have hsame := number_of_whole_eq_number (whole_number literal)
    exact Or.inr ⟨by rwa [hsame], hsame⟩

theorem alike_of_whole (h : whole literal = whole other) : lengthKey literal = lengthKey other :=
  lengthKey_eq_iff.2 (Or.inl h)

/-- The number of a text that begins with the signs of a number, as far as plus signs leave
something of them. -/
theorem number_append (hsigns : ∀ c ∈ trim literal, isNumberSign c = true)
    (hne : (trim literal).dropWhile (· == '+') ≠ [])
    (hrest : ∀ c ∈ rest, isNumberSign c = false) :
    number (trim literal ++ rest) = (trim literal).dropWhile (· == '+') := by
  have hsolid : ∀ c ∈ trim literal, isBlank c = false :=
    fun c hc => isBlank_of_isNumberSign (hsigns c hc)
  have hnonempty : trim literal ≠ [] := by
    intro hnil
    rw [hnil] at hne
    exact hne rfl
  -- the number ends with the signs: nothing behind them becomes one when it is lowered
  have hcut : ∀ c, ((trimRight rest).map Char.toLower).head? = some c →
      isNumberSign c = false := by
    intro c hc
    obtain ⟨d, hd, rfl⟩ := List.mem_map.1 (List.mem_of_mem_head? hc)
    rw [isNumberSign_toLower, hrest d (mem_of_mem_trimRight hd)]
  rw [number, bare, whole, trim_append_of_solid hnonempty hsolid, List.map_append,
    lowered_of_signs hsigns, List.dropWhile_append, if_neg (by simpa using hne),
    (span_append _ hcut).1]
  exact fun c hc => hsigns c ((List.dropWhile_sublist _).subset hc)

/-- **What stands behind the number of a length does not count**, when the length consists of
signs of a number, and the plus signs in front of it are not all of them. -/
theorem lengthKey_append (hsigns : ∀ c ∈ trim literal, isNumberSign c = true)
    (hne : (trim literal).dropWhile (· == '+') ≠ [])
    (hrest : ∀ c ∈ rest, isNumberSign c = false) :
    lengthKey (trim literal ++ rest) = lengthKey literal := by
  have hnumber := number_append hsigns hne hrest
  have hbare : number (trim literal ++ []) = (trim literal).dropWhile (· == '+') :=
    number_append hsigns hne (by simp)
  rw [List.append_nil] at hbare
  have hwhole : lengthKey (trim literal) = lengthKey literal :=
    alike_of_whole (by rw [whole, trim_trim, whole])
  rw [← hwhole]
  exact lengthKey_eq_iff.2 (Or.inr ⟨by rwa [hnumber], by rw [hnumber, hbare]⟩)

/-- A unit is no part of the key, whatever white space stands in front of it. -/
theorem lengthKey_append_unit (hsigns : ∀ c ∈ trim literal, isNumberSign c = true)
    (hne : (trim literal).dropWhile (· == '+') ≠ [])
    (hunit : ∀ c ∈ unit, isUnitSign c = true) : lengthKey (literal ++ unit) = lengthKey literal := by
  obtain ⟨front, back, htext, hfront, hback⟩ := exists_trim literal
  -- white space behind the length now stands in front of the unit, as a part of the rest
  have hsame : trim (literal ++ unit) = trim (trim literal ++ (back ++ unit)) := by
    conv_lhs => rw [htext, List.append_assoc, List.append_assoc]
    have hnone : allBlank ([] : List Char) = true := rfl
    have hcut := trim_surround hfront (trim literal ++ (back ++ unit)) hnone
    rwa [List.append_nil] at hcut
  have hwhole : whole (literal ++ unit) = whole (trim literal ++ (back ++ unit)) := by
    unfold whole
    rw [hsame]
  rw [alike_of_whole hwhole]
  refine lengthKey_append hsigns hne fun c hc => ?_
  rcases List.mem_append.1 hc with hc | hc
  · by_contra hnumber
    have hblank := List.all_eq_true.1 hback c hc
    rw [isBlank_of_isNumberSign (by simpa using hnumber)] at hblank
    cases hblank
  · exact isNumberSign_of_isUnitSign (hunit c hc)

/-! ### All literals -/

/-- The key of a key is the key. -/
theorem key_key (kind : LiteralKind) (literal : List Char) :
    key kind (key kind literal) = key kind literal := by
  cases kind with
  | color => exact colorKey_colorKey literal
  | length => exact lengthKey_eq_iff.2 (alike_lengthKey literal)

/-- White space around a literal does not count. -/
theorem key_surround (kind : LiteralKind) (hfront : allBlank front = true) (literal : List Char)
    (hback : allBlank back = true) : key kind (front ++ (literal ++ back)) = key kind literal := by
  cases kind with
  | color =>
    refine colorKey_eq_of_solid ?_
    have hnone : ∀ text : List Char, allBlank text = true → text.filter (!isBlank ·) = [] :=
      fun text h => List.filter_eq_nil_iff.2 fun c hc => by simp [List.all_eq_true.1 h c hc]
    rw [List.filter_append, List.filter_append, hnone front hfront, hnone back hback]
    simp
  | length => exact alike_of_whole (by rw [whole, trim_surround hfront literal hback, whole])

/-- Nor does the case of its letters. -/
theorem key_eq_of_lowered (kind : LiteralKind)
    (h : literal.map Char.toLower = other.map Char.toLower) : key kind literal = key kind other := by
  cases kind with
  | color => exact colorKey_eq_of_lowered h
  | length =>
    exact alike_of_whole (by rw [whole, ← trim_map_toLower, h, trim_map_toLower, whole])

/-- **The key of a literal is a normal form.**  It is its own key.  Neither white space around
a literal nor the case of its letters changes it, nor does white space anywhere in a color, nor
a unit behind a length that is nothing but a number.  So a table finds for a literal what it
finds for its key. -/
theorem key_normal :
    (∀ kind literal, key kind (key kind literal) = key kind literal) ∧
    (∀ kind literal front back, allBlank front = true → allBlank back = true →
      key kind (front ++ (literal ++ back)) = key kind literal) ∧
    (∀ kind literal other, literal.map Char.toLower = other.map Char.toLower →
      key kind literal = key kind other) ∧
    (∀ literal other, literal.filter (!isBlank ·) = other.filter (!isBlank ·) →
      key .color literal = key .color other) ∧
    (∀ literal unit, (∀ c ∈ trim literal, isNumberSign c = true) →
      (trim literal).dropWhile (· == '+') ≠ [] → (∀ c ∈ unit, isUnitSign c = true) →
        key .length (trim literal ++ unit) = key .length literal ∧
          key .length (literal ++ unit) = key .length literal) ∧
    ∀ (table : TokenTable) category literal,
      table.lookup? category (key category.kind literal) = table.lookup? category literal := by
  refine ⟨key_key, fun kind literal front back hfront hback =>
    key_surround kind hfront literal hback, fun kind literal other => key_eq_of_lowered kind,
    fun literal other => colorKey_eq_of_solid, fun literal unit hsigns hne hunit => ⟨?_, ?_⟩,
    fun table category literal => ?_⟩
  · exact lengthKey_append hsigns hne fun c hc => isNumberSign_of_isUnitSign (hunit c hc)
  · exact lengthKey_append_unit hsigns hne hunit
  · rw [TokenTable.lookup?, key_key, TokenTable.lookup?]

end Literal

namespace Sample

open Literal

/-- A length with white space around it, a color in capitals and one with white space in it, and
a length with plus signs that gets a unit. -/
theorem spellings_normal :
    (allBlank "\u2003".toList = true ∧ allBlank "\n ".toList = true ∧
      key .length ("\u2003".toList ++ ("+8PX".toList ++ "\n ".toList)) =
        key .length "+8PX".toList) ∧
    ("#409EFF".toList.map Char.toLower = "#409eff".toList.map Char.toLower ∧
      key .color "#409EFF".toList = key .color "#409eff".toList) ∧
    ("rgba(0, 0, 0, .1)".toList.filter (!isBlank ·) = "rgba(0,0,0,.1)".toList.filter (!isBlank ·) ∧
      key .color "rgba(0, 0, 0, .1)".toList = key .color "rgba(0,0,0,.1)".toList) ∧
    (∀ c ∈ trim " ++16 ".toList, isNumberSign c = true) ∧
    (trim " ++16 ".toList).dropWhile (· == '+') ≠ [] ∧
    (∀ c ∈ "rem".toList, isUnitSign c = true) ∧
    key .length (trim " ++16 ".toList ++ "rem".toList) = key .length " ++16 ".toList ∧
    key .length (" ++16 ".toList ++ "rem".toList) = key .length " ++16 ".toList := by
  obtain ⟨-, hsurround, hcase, hcolor, hunit, -⟩ := key_normal
  have hsigns : ∀ c ∈ trim " ++16 ".toList, isNumberSign c = true :=
    List.all_eq_true.1 (by decide)
  have hne : (trim " ++16 ".toList).dropWhile (· == '+') ≠ [] := by decide
  have hrem : ∀ c ∈ "rem".toList, isUnitSign c = true :=
    List.all_eq_true.1 (by decide)
  have hlowered : "#409EFF".toList.map Char.toLower = "#409eff".toList.map Char.toLower := by
    decide
  have hsolid : "rgba(0, 0, 0, .1)".toList.filter (!isBlank ·) =
      "rgba(0,0,0,.1)".toList.filter (!isBlank ·) := by
    decide +kernel
  exact ⟨⟨by decide, by decide, hsurround _ _ _ _ (by decide) (by decide)⟩,
    ⟨hlowered, hcase _ _ _ hlowered⟩, ⟨hsolid, hcolor _ _ hsolid⟩, hsigns, hne, hrem,
    hunit _ _ hsigns hne hrem⟩

end Sample

end StyleTokens

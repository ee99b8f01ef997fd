/-
What the key of a length keeps of it.

The key of a length is the number it begins with.  For a number with at most a unit behind
it this is all there is to compare.  A list, a ratio or a sum has the key of its first
number as well, so a rule that takes such a value for one literal puts the token of this
number in place of all of it.

* `Alike`, `lengthKey_eq_iff` — when two literals have one key;
* `SameButUnit` — what is meant by one length;
* `excess`, `Alike.sameButUnit_iff` — when the key tells it;
* `Substitution.ofValue_length` — what a rule makes of a value that is one literal.

Design notes: plus signs in front of a number count for nothing, so a literal is read
without them (`bare`).
-/
import Mathlib.Data.List.DropRight
import StyleTokens.Proofs.Table.Entries
import StyleTokens.Revision

namespace StyleTokens

open Text

namespace Literal

variable {a b : List Char}

/-- A literal in lower case and without white space around it. -/
def whole (literal : List Char) : List Char :=
  (trim literal).map Char.toLower

/-- A literal in lower case, without white space around it and plus signs in front. -/
def bare (literal : List Char) : List Char :=
  (whole literal).dropWhile (· == '+')

/-- The signs of a number that a literal begins with. -/
def number (literal : List Char) : List Char :=
  (bare literal).takeWhile isNumberSign

/-- What stands behind the number. -/
def beyond (literal : List Char) : List Char :=
  (bare literal).dropWhile isNumberSign

/-- The characters of units. -/
def isUnitSign (c : Char) : Bool :=
  c.isAlpha || c == '%'

/-- Literals that are one text or begin with one number. -/
def Alike (a b : List Char) : Prop :=
  whole a = whole b ∨ number a ≠ [] ∧ number a = number b

instance : Decidable (Alike a b) :=
  inferInstanceAs (Decidable (_ ∨ _))

/-- Literals that are the same text but for a unit at the end. -/
def SameButUnit (a b : List Char) : Prop :=
  ∃ stem unit unit', bare a = stem ++ unit ∧ bare b = stem ++ unit' ∧
    (∀ c ∈ unit, isUnitSign c = true) ∧ ∀ c ∈ unit', isUnitSign c = true

/-- What a literal has besides a number in front and a unit at the end. -/
def excess (literal : List Char) : List Char :=
  (beyond literal).rdropWhile isUnitSign

theorem number_append_beyond (literal : List Char) :
    number literal ++ beyond literal = bare literal :=
  List.takeWhile_append_dropWhile

/-! ### The key -/

/-- What is dropped in front may be dropped before the rest is cut off. -/
theorem dropWhile_takeWhile {p q : Char → Bool} (h : ∀ c, p c = true → q c = true)
    (text : List Char) : (text.takeWhile q).dropWhile p = (text.dropWhile p).takeWhile q := by
  induction text with
  | nil => rfl
  | cons c rest ih =>
    by_cases hp : p c = true
    · rw [List.takeWhile_cons_of_pos (h c hp), List.dropWhile_cons_of_pos hp,
        List.dropWhile_cons_of_pos hp, ih]
    · rw [List.dropWhile_cons_of_neg hp]
      by_cases hq : q c = true
      · rw [List.takeWhile_cons_of_pos hq, List.dropWhile_cons_of_neg hp]
      · rw [List.takeWhile_cons_of_neg hq, List.dropWhile_nil]

/-- The key of a length is its number, or all of it. -/
theorem lengthKey_eq (literal : List Char) :
    lengthKey literal = if number literal = [] then whole literal else number literal := by
  have hsign : ∀ c : Char, (c == '+') = true → isNumberSign c = true := fun c hc => by
    simp [isNumberSign, hc]
  have hnumber : ((whole literal).takeWhile isNumberSign).dropWhile (· == '+') =
      number literal := dropWhile_takeWhile hsign _
  rw [whole] at hnumber
  simp only [lengthKey, hnumber, List.isEmpty_iff, whole]

/-- A number is its own number. -/
theorem number_of_whole_eq_number (h : whole a = number b) : number a = number b := by
  have hhead : (number b).dropWhile (· == '+') = number b := by
    refine List.dropWhile_eq_self_iff.2 fun hpos => ?_
    have hprefix : number b <+: bare b := List.takeWhile_prefix _
    rw [List.IsPrefix.getElem hprefix hpos]
    exact List.dropWhile_get_zero_not _ _ (hpos.trans_le hprefix.length_le)
  have hall : ∀ c ∈ number b, isNumberSign c = true := fun c hc => List.mem_takeWhile_imp hc
  rw [number, bare, h, hhead, List.takeWhile_eq_self_iff.2 hall]

/-- Two literals have one key just if they are one text or begin with one number. -/
theorem lengthKey_eq_iff : lengthKey a = lengthKey b ↔ Alike a b := by
  have hnumbers : whole a = whole b → number a = number b := fun h => by
    rw [number, number, bare, bare, h]
  rw [lengthKey_eq, lengthKey_eq, Alike]
  by_cases ha : number a = []
  · by_cases hb : number b = []
    · simp [ha, hb]
    · have hmixed : whole a ≠ number b := fun h => hb (by rw [← number_of_whole_eq_number h, ha])
      have hwhole : whole a ≠ whole b := fun h => hb (by rw [← hnumbers h, ha])
      simp [ha, hb, hmixed, hwhole]
  · by_cases hb : number b = []
    · have hmixed : number a ≠ whole b := fun h =>
        ha (by rw [← number_of_whole_eq_number h.symm, hb])
      have hwhole : whole a ≠ whole b := fun h => ha (by rw [hnumbers h, hb])
      simp [ha, hb, hmixed, hwhole]
    · simp only [ha, hb, if_false, ne_eq, not_false_eq_true, true_and]
      exact ⟨.inr, fun h => h.elim hnumbers id⟩

/-! ### One length -/

/-- Literals are the same but for a unit just if they are the same without it. -/
theorem sameButUnit_iff : SameButUnit a b ↔
    (bare a).rdropWhile isUnitSign = (bare b).rdropWhile isUnitSign := by
  constructor
  · rintro ⟨stem, unit, unit', ha, hb, hunit, hunit'⟩
    have hdrop : ∀ tail : List Char, (∀ c ∈ tail, isUnitSign c = true) →
        (stem ++ tail).rdropWhile isUnitSign = stem.rdropWhile isUnitSign := by
      intro tail htail
      rw [List.rdropWhile, List.reverse_append,
        List.dropWhile_append_of_pos fun c hc => htail c (List.mem_reverse.1 hc), List.rdropWhile]
    rw [ha, hb, hdrop unit hunit, hdrop unit' hunit']
  · intro h
    have hsplit : ∀ text : List Char,
        text = text.rdropWhile isUnitSign ++ text.rtakeWhile isUnitSign ∧
        ∀ c ∈ text.rtakeWhile isUnitSign, isUnitSign c = true := fun text =>
      ⟨List.rdropWhile_append_rtakeWhile.symm, fun c hc => List.mem_rtakeWhile_imp hc⟩
    refine ⟨_, _, _, (hsplit (bare a)).1, ?_, (hsplit (bare a)).2, (hsplit (bare b)).2⟩
    rw [h]
    exact (hsplit (bare b)).1

instance : Decidable (SameButUnit a b) :=
  decidable_of_iff _ sameButUnit_iff.symm

/-- No sign is that of a number and of a unit. -/
theorem isUnitSign_of_isNumberSign {c : Char} (h : isNumberSign c = true) :
    isUnitSign c = false := by
  simp only [isNumberSign, Bool.or_eq_true, beq_iff_eq] at h
  rcases h with ((hdigit | rfl) | rfl) | rfl
  · delta Char.isDigit at hdigit
    delta isUnitSign Char.isAlpha Char.isUpper Char.isLower
    have hsigns : '0'.val.toNat = 48 ∧ '9'.val.toNat = 57 ∧ 'A'.val.toNat = 65 ∧
      'a'.val.toNat = 97 := ⟨rfl, rfl, rfl, rfl⟩
    have hpercent : c ≠ '%' := by
      rintro rfl
      exact absurd hdigit (by decide)
    simp only [Bool.and_eq_true, Bool.or_eq_false_iff, Bool.and_eq_false_iff, decide_eq_true_eq,
      decide_eq_false_iff_not, ge_iff_le, UInt32.le_iff_toNat_le, beq_eq_false_iff_ne] at hdigit ⊢
    exact ⟨by omega, hpercent⟩
  all_goals decide

/-- A unit is cut off behind a number. -/
theorem rdropWhile_number_append (rest : List Char) (literal : List Char) :
    (number literal ++ rest).rdropWhile isUnitSign =
      number literal ++ rest.rdropWhile isUnitSign := by
  have hnumber : (number literal).reverse.dropWhile isUnitSign = (number literal).reverse := by
    refine List.dropWhile_eq_self_iff.2 fun hpos => ?_
    have hmem : (number literal).reverse[0] ∈ number literal :=
      List.mem_reverse.1 (List.getElem_mem hpos)
    rw [isUnitSign_of_isNumberSign (List.mem_takeWhile_imp hmem)]
    exact Bool.false_ne_true
  rw [List.rdropWhile, List.reverse_append, List.dropWhile_append, hnumber, List.rdropWhile]
  split
  · next hunit =>
    rw [List.reverse_reverse, List.isEmpty_iff.1 hunit, List.reverse_nil, List.append_nil]
  · rw [List.reverse_append, List.reverse_reverse]

/-- **When a key stands for one length.**  Two literals with one key are the same but for a
unit just if they are the same behind the number. -/
theorem Alike.sameButUnit_iff (h : Alike a b) : SameButUnit a b ↔ excess a = excess b := by
  rw [Literal.sameButUnit_iff]
  rcases h with hwhole | ⟨-, hnumber⟩
  · have hbare : bare a = bare b := by rw [bare, bare, hwhole]
    rw [excess, excess, beyond, beyond, hbare]
    exact ⟨fun _ => rfl, fun _ => rfl⟩
  · rw [← number_append_beyond a, ← number_append_beyond b, rdropWhile_number_append,
      rdropWhile_number_append, hnumber, List.append_right_inj]
    rfl

end Literal

/-! ### Rules that take a value for one literal -/

namespace Substitution

open Literal

variable {table : TokenTable} {rule : Rule} {value : List Char}

/-- A value that is one literal is looked up as it is. -/
theorem parts_ofValue (hone : rule.splitValues = false) :
    (ofValue table rule value).parts = [(value, .ofPart table rule.category value)] := by
  simp [ofValue, hone]

/-- A value that is one literal and not blank is replaced if it has a token. -/
theorem replaced_ofValue_iff (hone : rule.splitValues = false) (hsolid : allBlank value = false) :
    (ofValue table rule value).replaced ≠ 0 ↔
      ∃ token, table.lookup? rule.category value = some token := by
  rw [replaced, parts_ofValue hone, Treatment.ofPart, hsolid, if_neg Bool.false_ne_true]
  cases table.lookup? rule.category value with
  | some token => simp [Treatment.token?]
  | none => cases isNeutralZero rule.category.kind value <;> simp [Treatment.token?]

/-- A value that is one literal and not blank becomes its token. -/
theorem text_ofValue {token : String} (hone : rule.splitValues = false)
    (hsolid : allBlank value = false) (h : table.lookup? rule.category value = some token) :
    (ofValue table rule value).text = token.toList := by
  simp [text, parts_ofValue hone, Treatment.ofPart, hsolid, h, Treatment.token?]

/-- **What becomes of a length that a rule takes for one literal.**  It is replaced just if
the category has an entry that is the same text or begins with the same number.  Then the
token of the entry stands for all of the value, and the value is the length of the entry
just if the two are the same behind the number, too. -/
theorem ofValue_length {entries : List TokenEntry}
    (htable : TokenTable.ofEntries entries = .ok table) (hkind : rule.category.kind = .length)
    (hone : rule.splitValues = false) (hsolid : allBlank value = false) :
    ((ofValue table rule value).replaced ≠ 0 ↔
      ∃ entry ∈ entries, entry.category = rule.category ∧ Alike value entry.literal.toList) ∧
    ∀ entry ∈ entries, entry.category = rule.category → Alike value entry.literal.toList →
      (ofValue table rule value).text = entry.token.toList ∧
      (SameButUnit value entry.literal.toList ↔ excess value = excess entry.literal.toList) := by
  have hfound : ∀ token, table.lookup? rule.category value = some token ↔ ∃ entry ∈ entries,
      entry.category = rule.category ∧ Alike value entry.literal.toList ∧ entry.token = token := by
    intro token
    rw [(TokenTable.holds_of_ofEntries htable).lookup_iff, hkind]
    simp only [key, eq_comm (b := lengthKey value), lengthKey_eq_iff]
  refine ⟨(replaced_ofValue_iff hone hsolid).trans ⟨?_, ?_⟩, fun entry hentry hcategory halike =>
    ⟨?_, halike.sameButUnit_iff⟩⟩
  · rintro ⟨token, htoken⟩
    obtain ⟨entry, hentry, hcategory, halike, -⟩ := (hfound token).1 htoken
    exact ⟨entry, hentry, hcategory, halike⟩
  · rintro ⟨entry, hentry, hcategory, halike⟩
    exact ⟨_, (hfound _).2 ⟨entry, hentry, hcategory, halike, rfl⟩⟩
  · exact text_ofValue hone hsolid ((hfound _).2 ⟨entry, hentry, hcategory, halike, rfl⟩)

end Substitution

namespace Sample

open Literal

/-- A table with one width. -/
def widths : List TokenEntry :=
  [⟨"14px", .size, "var(--width)"⟩]

/-- A rule that takes all that follows the property for its value. -/
def widthDraft : RuleDraft :=
  ⟨"width", .size, "width: (?P<value>[^;]+)", "", false⟩

/-- Three values of widths: one in another unit, one that is longer, and another one. -/
theorem widths_replaced : ∃ table rule, TokenTable.ofEntries widths = .ok table ∧
    Rule.ofDraft widthDraft = .ok rule ∧
    (SameButUnit "+14REM".toList "14px".toList ∧
      (Substitution.ofValue table rule "+14REM".toList).text = "var(--width)".toList) ∧
    (¬ SameButUnit "14px 20px".toList "14px".toList ∧
      (Substitution.ofValue table rule "14px 20px".toList).text = "var(--width)".toList) ∧
    (Substitution.ofValue table rule "15px".toList).replaced = 0 := by
  obtain ⟨table, htable⟩ := TokenTable.exists_ofEntries_iff.2
    (show TokenTable.AreEntries widths by decide +kernel)
  have hdraft : (Rule.ofDraft widthDraft).toOption.map (fun rule =>
      (rule.category.kind, rule.category, rule.splitValues)) = some (.length, .size, false) := by
    decide +kernel
  cases hmade : Rule.ofDraft widthDraft with
  | error fault =>
    rw [hmade] at hdraft
    cases hdraft
  | ok rule =>
    obtain ⟨hkind, hcategory, hone⟩ : rule.category.kind = .length ∧ rule.category = .size ∧
        rule.splitValues = false := by
      rw [hmade] at hdraft
      simpa [Except.toOption] using hdraft
    have hmember : (⟨"14px", .size, "var(--width)"⟩ : TokenEntry) ∈ widths := by decide
    obtain ⟨-, hunit⟩ := Substitution.ofValue_length htable hkind hone
      (show allBlank "+14REM".toList = false by decide)
    obtain ⟨-, hlist⟩ := Substitution.ofValue_length htable hkind hone
      (show allBlank "14px 20px".toList = false by decide)
    obtain ⟨hother, -⟩ := Substitution.ofValue_length htable hkind hone
      (show allBlank "15px".toList = false by decide)
    obtain ⟨hunitText, hunitSame⟩ := hunit _ hmember hcategory.symm (by decide)
    obtain ⟨hlistText, hlistSame⟩ := hlist _ hmember hcategory.symm (by decide)
    refine ⟨table, rule, htable, rfl, ⟨hunitSame.2 (by decide), hunitText⟩,
      ⟨fun h => absurd (hlistSame.1 h) (by decide), hlistText⟩, ?_⟩
    by_contra h
    obtain ⟨entry, hentry, -, halike⟩ := hother.1 h
    obtain rfl := List.mem_singleton.1 hentry
    exact absurd halike (by decide)

/-- The key of a list is the key of its first number, and a rule puts the token of this number
in place of the list. -/
theorem list_replaced :
    (¬ ∀ a b : List Char, lengthKey a = lengthKey b → (lengthKey a).any Char.isDigit = true →
      SameButUnit a b) ∧
    ∃ table set, TokenTable.ofEntries widths = .ok table ∧
      RuleSet.ofDrafts "widths" [widthDraft] table = .ok set ∧
      (set.revise "width: 14px 20px;".toList).text = "width: var(--width);".toList := by
  constructor
  · intro h
    exact absurd (h "14px".toList "14px 20px".toList (by decide) (by decide)) (by decide)
  · have hrevised : (do
        let table ← (TokenTable.ofEntries widths).toOption
        let set ← (RuleSet.ofDrafts "widths" [widthDraft] table).toOption
        return (set.revise "width: 14px 20px;".toList).text) =
          some "width: var(--width);".toList := by
      decide +kernel
    cases htable : TokenTable.ofEntries widths with
    | error fault =>
      rw [htable] at hrevised
      cases hrevised
    | ok table =>
      rw [htable] at hrevised
      cases hset : RuleSet.ofDrafts "widths" [widthDraft] table with
      | error fault =>
        simp [hset, Except.toOption] at hrevised
      | ok set =>
        exact ⟨table, set, rfl, hset, by simpa [hset, Except.toOption] using hrevised⟩

end Sample

end StyleTokens

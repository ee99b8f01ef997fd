/-
Sets of characters, as the classes of a pattern name them.

A set is kept as ranges of code points in ascending order, no two of which
overlap or touch, so a set has one shape however it was written down.

* `CharSet.named?` — the sets with a name of their own between `[:` and `:]`;
* `CharSet.caseless` — a set with the other case of its letters;
* `contains_ofRanges`, `contains_union`, `contains_complement` — what the
  operations mean.

Design notes: the other case is added range by range, so what a set becomes
depends on how its ranges lie: in a range that holds letters of both cases only
the small ones count.
-/
namespace StyleTokens

/-- The code points from `low` to `high`. -/
structure CodeRange where
  low : Nat
  high : Nat
  deriving DecidableEq, Repr, Inhabited

namespace CodeRange

/-- Membership. -/
def contains (range : CodeRange) (c : Char) : Bool :=
  range.low ≤ c.toNat && c.toNat ≤ range.high

/-- A list of ranges with one more at its place. -/
def insertSorted (range : CodeRange) : List CodeRange → List CodeRange
  | [] => [range]
  | other :: ranges =>
    if range.low ≤ other.low then range :: other :: ranges
    else other :: insertSorted range ranges

/-- A range and the ranges behind it, those joined that overlap or touch. -/
def join : CodeRange → List CodeRange → List CodeRange
  | range, [] => [range]
  | range, other :: ranges =>
    if other.low ≤ range.high + 1 then join ⟨range.low, max range.high other.high⟩ ranges
    else range :: join other ranges

/-- The greatest code point. -/
def top : Nat := 0x10FFFF

/-- What lies between and around ranges, from a code point on. -/
def gapsFrom (low : Nat) : List CodeRange → List CodeRange
  | [] => if low ≤ top then [⟨low, top⟩] else []
  | range :: ranges =>
    let gap : List CodeRange := if low < range.low then [⟨low, range.low - 1⟩] else []
    gap ++ gapsFrom (max low (range.high + 1)) ranges

/-- The other case of the small ASCII letters of a range or, where it has none,
of the capital ones. -/
def otherCase? (range : CodeRange) : Option CodeRange :=
  if range.low ≤ 122 && 97 ≤ range.high then
    some ⟨max range.low 97 - 32, min range.high 122 - 32⟩
  else if range.low ≤ 90 && 65 ≤ range.high then
    some ⟨max range.low 65 + 32, min range.high 90 + 32⟩
  else none

theorem any_insertSorted (range : CodeRange) (ranges : List CodeRange) (c : Char) :
    (insertSorted range ranges).any (·.contains c) =
      (range.contains c || ranges.any (·.contains c)) := by
  induction ranges with
  | nil => simp [insertSorted]
  | cons other ranges ih =>
    unfold insertSorted
    split
    · simp
    · simp [ih, Bool.or_left_comm]

theorem mem_insertSorted {range other : CodeRange} {ranges : List CodeRange} :
    other ∈ insertSorted range ranges ↔ other = range ∨ other ∈ ranges := by
  induction ranges with
  | nil => simp [insertSorted]
  | cons head ranges ih =>
    unfold insertSorted
    split
    · simp
    · simp [ih, or_left_comm]

theorem ascending_insertSorted (range : CodeRange) {ranges : List CodeRange}
    (h : ranges.Pairwise (·.low ≤ ·.low)) :
    (insertSorted range ranges).Pairwise (·.low ≤ ·.low) := by
  induction ranges with
  | nil => simp [insertSorted]
  | cons other ranges ih =>
    have ⟨ho, hr⟩ := List.pairwise_cons.1 h
    unfold insertSorted
    split
    · next hle =>
      refine List.pairwise_cons.2 ⟨fun r hm => ?_, h⟩
      rcases List.mem_cons.1 hm with rfl | hm
      · exact hle
      · exact Nat.le_trans hle (ho r hm)
    · next hlt =>
      refine List.pairwise_cons.2 ⟨fun r hm => ?_, ih hr⟩
      rcases mem_insertSorted.1 hm with rfl | hm
      · omega
      · exact ho r hm

theorem any_join {range : CodeRange} {ranges : List CodeRange}
    (h : (range :: ranges).Pairwise (·.low ≤ ·.low)) (c : Char) :
    (join range ranges).any (·.contains c) =
      (range.contains c || ranges.any (·.contains c)) := by
  induction ranges generalizing range with
  | nil => simp [join]
  | cons other ranges ih =>
    have ⟨hr, ho⟩ := List.pairwise_cons.1 h
    have hro := hr other (by simp)
    have hall := (List.pairwise_cons.1 ho).2
    unfold join
    split
    · next touch =>
      have joined : (⟨range.low, max range.high other.high⟩ :: ranges).Pairwise
          (fun a b : CodeRange => a.low ≤ b.low) :=
        List.pairwise_cons.2 ⟨fun r hm => hr r (by simp [hm]), hall⟩
      rw [ih joined]
      have : (CodeRange.contains ⟨range.low, max range.high other.high⟩ c) =
          (range.contains c || other.contains c) := by
        rw [Bool.eq_iff_iff]
        simp only [contains, Bool.and_eq_true, Bool.or_eq_true, decide_eq_true_eq]
        omega
      simp [this, Bool.or_assoc]
    · simp [ih ho]

theorem any_gapsFrom {low : Nat} {ranges : List CodeRange}
    (h : ranges.Pairwise (·.low ≤ ·.low)) (c : Char) (hc : c.toNat ≤ top) :
    (gapsFrom low ranges).any (·.contains c) =
      (decide (low ≤ c.toNat) && !ranges.any (·.contains c)) := by
  induction ranges generalizing low with
  | nil =>
    unfold gapsFrom
    split <;> simp [contains] <;> omega
  | cons range ranges ih =>
    have ⟨hr, hs⟩ := List.pairwise_cons.1 h
    have later : range.low > c.toNat → ranges.any (·.contains c) = false := by
      intro hlt
      simp only [List.any_eq_false, contains, Bool.and_eq_true, decide_eq_true_eq]
      intro r hm
      have := hr r hm
      omega
    unfold gapsFrom
    simp only [List.any_append, ih hs, List.any_cons]
    by_cases hlt : range.low > c.toNat
    · rw [later hlt]
      rw [Bool.eq_iff_iff]
      split <;> simp [contains] <;> omega
    · cases ranges.any (·.contains c) <;> rw [Bool.eq_iff_iff] <;> split <;>
        simp [contains] <;> omega

end CodeRange

/-- A set of characters. -/
structure CharSet where
  ranges : List CodeRange
  deriving DecidableEq, Repr, Inhabited

namespace CharSet

/-- Membership. -/
def contains (set : CharSet) (c : Char) : Bool :=
  set.ranges.any (·.contains c)

/-- The ranges in ascending order. -/
def sorted (ranges : List CodeRange) : List CodeRange :=
  ranges.foldr CodeRange.insertSorted []

/-- The set of the characters of any of several ranges. -/
def ofRanges (ranges : List CodeRange) : CharSet :=
  match sorted ranges with
  | [] => ⟨[]⟩
  | range :: ranges => ⟨range.join ranges⟩

/-- The empty set. -/
def nothing : CharSet :=
  ⟨[]⟩

/-- The characters from `low` to `high`. -/
def span (low high : Char) : CharSet :=
  ⟨[⟨low.toNat, high.toNat⟩]⟩

/-- The set of one character. -/
def single (c : Char) : CharSet :=
  span c c

/-- The union of several sets. -/
def unionOf (sets : List CharSet) : CharSet :=
  ofRanges (sets.map (·.ranges)).flatten

/-- The union of two sets. -/
def union (a b : CharSet) : CharSet :=
  ofRanges (a.ranges ++ b.ranges)

/-- All characters that are not in a set. -/
def complement (set : CharSet) : CharSet :=
  ⟨CodeRange.gapsFrom 0 (sorted set.ranges)⟩

/-- A set together with the other case of the letters of each of its ranges. -/
def caseless (set : CharSet) : CharSet :=
  ofRanges (set.ranges ++ set.ranges.filterMap (·.otherCase?))

/-- The decimal digits. -/
def digit : CharSet :=
  span '0' '9'

/-- The ASCII letters. -/
def alpha : CharSet :=
  union (span 'A' 'Z') (span 'a' 'z')

/-- Tab, line feed, vertical tab, form feed, carriage return and space. -/
def space : CharSet :=
  union (span '\t' '\r') (single ' ')

/-- ASCII letters, digits and the underscore. -/
def word : CharSet :=
  unionOf [alpha, digit, single '_']

/-- ASCII characters that are neither blank, control, letter nor digit. -/
def punct : CharSet :=
  unionOf [span '!' '/', span ':' '@', span '[' '\u0060', span '\x7b' '~']

/-- The sets that have a name. -/
def named? (name : List Char) : Option CharSet :=
  match String.ofList name with
  | "alnum" => some (union alpha digit)
  | "alpha" => some alpha
  | "ascii" => some (span '\x00' '\x7f')
  | "blank" => some (union (single '\t') (single ' '))
  | "cntrl" => some (union (span '\x00' '\x1f') (single '\x7f'))
  | "digit" => some digit
  | "graph" => some (span '!' '~')
  | "lower" => some (span 'a' 'z')
  | "print" => some (span ' ' '~')
  | "punct" => some punct
  | "space" => some space
  | "upper" => some (span 'A' 'Z')
  | "word" => some word
  | "xdigit" => some (unionOf [digit, span 'A' 'F', span 'a' 'f'])
  | _ => none

@[simp] theorem contains_nothing (c : Char) : nothing.contains c = false := rfl

@[simp] theorem contains_span (low high c : Char) :
    (span low high).contains c =
      (decide (low.toNat ≤ c.toNat) && decide (c.toNat ≤ high.toNat)) := by
  simp [span, contains, CodeRange.contains]

theorem any_sorted (ranges : List CodeRange) (c : Char) :
    (sorted ranges).any (·.contains c) = ranges.any (·.contains c) := by
  induction ranges with
  | nil => rfl
  | cons range ranges ih =>
    simp only [sorted, List.foldr_cons, CodeRange.any_insertSorted, List.any_cons]
    rw [← ih, sorted]

theorem ascending_sorted (ranges : List CodeRange) :
    (sorted ranges).Pairwise (·.low ≤ ·.low) := by
  induction ranges with
  | nil => exact List.Pairwise.nil
  | cons range ranges ih => exact CodeRange.ascending_insertSorted range ih

theorem contains_ofRanges (ranges : List CodeRange) (c : Char) :
    (ofRanges ranges).contains c = ranges.any (·.contains c) := by
  rw [← any_sorted, ofRanges]
  have h := ascending_sorted ranges
  split
  · next hs => simp [contains, hs]
  · next range others hs =>
    rw [hs] at h ⊢
    simpa [contains] using CodeRange.any_join h c

@[simp] theorem contains_union (a b : CharSet) (c : Char) :
    (a.union b).contains c = (a.contains c || b.contains c) := by
  rw [union, contains_ofRanges, List.any_append]; rfl

@[simp] theorem contains_complement (a : CharSet) (c : Char) :
    a.complement.contains c = !a.contains c := by
  have hc : c.toNat ≤ CodeRange.top := by
    have := c.valid
    simp only [UInt32.isValidChar, Nat.isValidChar] at this
    have : c.toNat = c.val.toNat := rfl
    unfold CodeRange.top
    omega
  simp [complement, contains, CodeRange.any_gapsFrom (ascending_sorted a.ranges) c hc, any_sorted]

end CharSet

end StyleTokens

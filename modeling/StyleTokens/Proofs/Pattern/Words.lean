/-
What can be said of the words of a pattern by looking at it.

* `Pattern.Words` — the words of a pattern whatever stands around them, which for
  a pattern without conditions are all there are (`spells_iff_words`);
* `Pattern.within` — whether a pattern asks for the characters of a set only
  (`contains_of_within`);
* `Pattern.words?` — the words of a pattern that has finitely many, where they can
  be listed (`mem_of_words?`);
* `words_rounds_one` — words of so many characters of a set.

Design notes: `Pattern.within` and `Pattern.words?` are computed, so that what
they say of a given pattern is found by evaluation.
-/
import StyleTokens.Proofs.Pattern.Declaration

namespace StyleTokens

open Text Language

/-- A number of words, one behind the other. -/
def Repeated (words : List Char → Prop) : Nat → List Char → Prop
  | 0, word => word = []
  | n + 1, word => ∃ u v, word = u ++ v ∧ words u ∧ Repeated words n v

theorem repeated_iff_power {words : List Char → Prop} {language : Language}
    (h : ∀ before word after, language before word after ↔ words word) (n : Nat) :
    ∀ before word after, language.power n before word after ↔ Repeated words n word := by
  induction n with
  | zero => exact fun _ _ _ => Iff.rfl
  | succ n ih =>
    intro before word after
    constructor
    · rintro ⟨u, v, rfl, hu, hv⟩
      exact ⟨u, v, rfl, (h _ _ _).1 hu, (ih _ _ _).1 hv⟩
    · rintro ⟨u, v, rfl, hu, hv⟩
      exact ⟨u, v, rfl, (h _ _ _).2 hu, (ih _ _ _).2 hv⟩

namespace Pattern

/-- The words of a pattern whatever stands around them. -/
def Words : Pattern → List Char → Prop
  | empty | assert _ => fun word => word = []
  | one set => fun word => ∃ c, word = [c] ∧ set.contains c = true
  | group _ body => body.Words
  | seq a b => fun word => ∃ u v, word = u ++ v ∧ a.Words u ∧ b.Words v
  | alt a b => fun word => a.Words word ∨ b.Words word
  | rounds low high _ body => fun word =>
    ∃ n, low ≤ n ∧ (∀ most ∈ high, n ≤ max low most) ∧ Repeated body.Words n word

/-- The words of patterns one after the other. -/
def WordsSeq : List Pattern → List Char → Prop
  | [], word => word = []
  | pattern :: patterns, word => ∃ u v, word = u ++ v ∧ pattern.Words u ∧ WordsSeq patterns v

/-- A pattern without conditions. -/
def Blind (pattern : Pattern) : Prop :=
  ∀ condition, Leaf.condition condition ∉ pattern.leaves

/-- A pattern without conditions has the same words everywhere. -/
theorem spells_iff_words {pattern : Pattern} (h : pattern.Blind) :
    ∀ before word after, pattern.Spells before word after ↔ pattern.Words word := by
  induction pattern with
  | empty => exact fun _ _ _ => Iff.rfl
  | one set => exact fun _ _ _ => Iff.rfl
  | assert condition => exact absurd List.mem_cons_self (h condition)
  | group name body ih => exact ih fun c hc => h c (List.mem_cons_of_mem _ hc)
  | seq a b iha ihb =>
    intro before word after
    have ha := iha fun c hc => h c (List.mem_append_left _ hc)
    have hb := ihb fun c hc => h c (List.mem_append_right _ hc)
    constructor
    · rintro ⟨u, v, rfl, hu, hv⟩
      exact ⟨u, v, rfl, (ha _ _ _).1 hu, (hb _ _ _).1 hv⟩
    · rintro ⟨u, v, rfl, hu, hv⟩
      exact ⟨u, v, rfl, (ha _ _ _).2 hu, (hb _ _ _).2 hv⟩
  | alt a b iha ihb =>
    intro before word after
    exact or_congr (iha (fun c hc => h c (List.mem_append_left _ hc)) _ _ _)
      (ihb (fun c hc => h c (List.mem_append_right _ hc)) _ _ _)
  | rounds low high greedy body ih =>
    intro before word after
    have hpower := fun n => repeated_iff_power (ih h) n before word after
    constructor
    · rintro ⟨n, hlow, hhigh, hn⟩
      exact ⟨n, hlow, hhigh, (hpower n).1 hn⟩
    · rintro ⟨n, hlow, hhigh, hn⟩
      exact ⟨n, hlow, hhigh, (hpower n).2 hn⟩

theorem spellsSeq_iff_words {patterns : List Pattern} (h : ∀ p ∈ patterns, p.Blind) :
    ∀ before word after, spellsSeq patterns before word after ↔ WordsSeq patterns word := by
  induction patterns with
  | nil => exact fun _ _ _ => Iff.rfl
  | cons p patterns ih =>
    intro before word after
    have hp := spells_iff_words (h p List.mem_cons_self)
    have hps := ih fun q hq => h q (List.mem_cons_of_mem _ hq)
    constructor
    · rintro ⟨u, v, rfl, hu, hv⟩
      exact ⟨u, v, rfl, (hp _ _ _).1 hu, (hps _ _ _).1 hv⟩
    · rintro ⟨u, v, rfl, hu, hv⟩
      exact ⟨u, v, rfl, (hp _ _ _).2 hu, (hps _ _ _).2 hv⟩

theorem wordsSeq_append {first second : List Pattern} {word : List Char} :
    WordsSeq (first ++ second) word ↔
      ∃ u v, word = u ++ v ∧ WordsSeq first u ∧ WordsSeq second v := by
  induction first generalizing word with
  | nil => simp [WordsSeq]
  | cons p first ih =>
    simp only [List.cons_append, WordsSeq, ih]
    constructor
    · rintro ⟨u, _, rfl, hu, v, w, rfl, hv, hw⟩
      exact ⟨u ++ v, w, by simp, ⟨u, v, rfl, hu, hv⟩, hw⟩
    · rintro ⟨_, w, rfl, ⟨u, v, rfl, hu, hv⟩, hw⟩
      exact ⟨u, v ++ w, by simp, hu, v, w, rfl, hv, hw⟩

theorem words_seqOf (patterns : List Pattern) (word : List Char) :
    (seqOf patterns).Words word ↔ WordsSeq patterns word := by
  induction patterns generalizing word with
  | nil => rfl
  | cons p patterns ih =>
    cases patterns with
    | nil => simp [seqOf, WordsSeq]
    | cons q patterns =>
      rw [seqOf_cons p (by simp), Words, WordsSeq]
      simp only [ih]

end Pattern

/-! ### Characters -/

/-- Whether all ranges of a set lie in ranges of another one. -/
def CharSet.inside (set allowed : CharSet) : Bool :=
  set.ranges.all fun range =>
    allowed.ranges.any fun other => other.low ≤ range.low && range.high ≤ other.high

theorem CharSet.contains_of_inside (set allowed : CharSet) (h : set.inside allowed = true) {c : Char}
    (hc : set.contains c = true) : allowed.contains c = true := by
  obtain ⟨range, hr, hin⟩ := List.any_eq_true.1 hc
  obtain ⟨other, ho, hle⟩ := List.any_eq_true.1 (List.all_eq_true.1 h range hr)
  refine List.any_eq_true.2 ⟨other, ho, ?_⟩
  simp only [CodeRange.contains, Bool.and_eq_true, decide_eq_true_eq] at hin hle ⊢
  omega

/-- Whether no ranges of two sets meet. -/
def CharSet.apart (set other : CharSet) : Bool :=
  set.ranges.all fun range =>
    other.ranges.all fun range' => range.high < range'.low || range'.high < range.low

theorem CharSet.not_contains_of_apart (set other : CharSet) (h : set.apart other = true) {c : Char}
    (hc : set.contains c = true) : other.contains c = false := by
  obtain ⟨range, hr, hin⟩ := List.any_eq_true.1 hc
  refine List.any_eq_false.2 fun range' hr' hin' => ?_
  have := List.all_eq_true.1 (List.all_eq_true.1 h range hr) range' hr'
  simp only [CodeRange.contains, Bool.and_eq_true, Bool.or_eq_true, decide_eq_true_eq]
    at hin hin' this
  omega

/-- Whether a leaf is a set. -/
def Leaf.isSet : Leaf → Bool
  | set _ => true
  | _ => false

/-- Whether a leaf is a set without a character. -/
def Leaf.avoids (c : Char) : Leaf → Bool
  | set other => !other.contains c
  | _ => false

namespace Pattern

/-- Whether the pattern has neither conditions nor groups. -/
def isPlain (pattern : Pattern) : Bool :=
  pattern.leaves.all Leaf.isSet

/-- Whether the pattern has neither conditions nor groups and never asks for a
character. -/
def avoids (c : Char) (pattern : Pattern) : Bool :=
  pattern.leaves.all (Leaf.avoids c)

theorem blind_of_isPlain {pattern : Pattern} (h : pattern.isPlain = true) : pattern.Blind := by
  intro condition hc
  simpa [Leaf.isSet] using List.all_eq_true.1 h _ hc

theorem groupFree_of_isPlain {pattern : Pattern} (h : pattern.isPlain = true) :
    pattern.GroupFree := by
  intro name hn
  simpa [Leaf.isSet] using List.all_eq_true.1 h _ hn

theorem isPlain_of_avoids {c : Char} {pattern : Pattern} (h : pattern.avoids c = true) :
    pattern.isPlain = true := by
  refine List.all_eq_true.2 fun leaf hl => ?_
  have := List.all_eq_true.1 h leaf hl
  cases leaf <;> simp_all [Leaf.avoids, Leaf.isSet]

/-- A node with no other leaves than those of such a pattern avoids the character. -/
theorem node_avoids {c : Char} {pattern : Pattern} (h : pattern.avoids c = true) {node : Node}
    (hn : node.leaves ⊆ pattern.leaves) : node.Avoids c := by
  constructor
  · intro set hs
    simpa [Leaf.avoids] using List.all_eq_true.1 h _ (hn hs)
  · intro condition hc
    simpa [Leaf.avoids] using List.all_eq_true.1 h _ (hn hc)

/-- Whether the pattern asks for characters of a set only. -/
def within (allowed : CharSet) : Pattern → Bool
  | empty | assert _ => true
  | one set => set.inside allowed
  | group _ body | rounds _ _ _ body => body.within allowed
  | seq a b | alt a b => a.within allowed && b.within allowed

theorem contains_of_repeated {words : List Char → Prop} {allowed : CharSet}
    (h : ∀ word, words word → ∀ c ∈ word, allowed.contains c = true) :
    ∀ (n : Nat) (word : List Char), Repeated words n word → ∀ c ∈ word, allowed.contains c = true := by
  intro n
  induction n with
  | zero =>
    rintro _ rfl
    simp
  | succ n ih =>
    rintro _ ⟨u, v, rfl, hu, hv⟩ c hc
    rcases List.mem_append.1 hc with hc | hc
    · exact h u hu c hc
    · exact ih v hv c hc

theorem contains_of_within {pattern : Pattern} {allowed : CharSet}
    (h : pattern.within allowed = true) :
    ∀ word, pattern.Words word → ∀ c ∈ word, allowed.contains c = true := by
  induction pattern with
  | empty =>
    rintro _ rfl
    simp
  | assert condition =>
    rintro _ rfl
    simp
  | one set =>
    rintro _ ⟨c, rfl, hc⟩ d hd
    rw [List.mem_singleton.1 hd]
    exact CharSet.contains_of_inside set allowed h hc
  | group name body ih => exact ih h
  | seq a b iha ihb =>
    rw [within, Bool.and_eq_true] at h
    rintro _ ⟨u, v, rfl, hu, hv⟩ c hc
    rcases List.mem_append.1 hc with hc | hc
    · exact iha h.1 u hu c hc
    · exact ihb h.2 v hv c hc
  | alt a b iha ihb =>
    rw [within, Bool.and_eq_true] at h
    rintro word (hw | hw)
    · exact iha h.1 word hw
    · exact ihb h.2 word hw
  | rounds low high greedy body ih =>
    rintro word ⟨n, -, -, hn⟩
    exact contains_of_repeated (ih h) n word hn

theorem contains_of_wordsSeq {patterns : List Pattern} {allowed : CharSet}
    (h : patterns.all (within allowed) = true) {word : List Char} (hw : WordsSeq patterns word) :
    ∀ c ∈ word, allowed.contains c = true := by
  induction patterns generalizing word with
  | nil =>
    obtain rfl : word = [] := hw
    simp
  | cons p patterns ih =>
    rw [List.all_cons, Bool.and_eq_true] at h
    obtain ⟨u, v, rfl, hu, hv⟩ := hw
    intro c hc
    rcases List.mem_append.1 hc with hc | hc
    · exact contains_of_within h.1 u hu c hc
    · exact ih h.2 hv c hc

/-- A number of characters of a set. -/
theorem words_rounds_one {low : Nat} {high : Option Nat} {greedy : Bool} {set : CharSet}
    {word : List Char} :
    (rounds low high greedy (one set)).Words word ↔ low ≤ word.length ∧
      (∀ most ∈ high, word.length ≤ max low most) ∧ ∀ c ∈ word, set.contains c = true := by
  have key : ∀ (n : Nat) (word : List Char), Repeated (one set).Words n word ↔
      word.length = n ∧ ∀ c ∈ word, set.contains c = true := by
    intro n
    induction n with
    | zero => intro word; cases word <;> simp [Repeated]
    | succ n ih =>
      intro word
      constructor
      · rintro ⟨_, v, rfl, ⟨c, rfl, hc⟩, hv⟩
        obtain ⟨rfl, hall⟩ := (ih v).1 hv
        simpa using ⟨hc, hall⟩
      · rintro ⟨hlen, hall⟩
        obtain ⟨c, v, rfl⟩ := List.exists_cons_of_length_eq_add_one hlen
        exact ⟨[c], v, rfl, ⟨c, rfl, hall c List.mem_cons_self⟩,
          (ih v).2 ⟨by simpa using hlen, fun d hd => hall d (List.mem_cons_of_mem _ hd)⟩⟩
  constructor
  · rintro ⟨n, hlow, hhigh, hn⟩
    obtain ⟨rfl, hall⟩ := (key n word).1 hn
    exact ⟨hlow, hhigh, hall⟩
  · rintro ⟨hlow, hhigh, hall⟩
    exact ⟨word.length, hlow, hhigh, (key _ word).2 ⟨rfl, hall⟩⟩

/-! ### Listing words -/

/-- All ways to put a number of words one behind the other. -/
def repetitions (words : List (List Char)) : Nat → List (List Char)
  | 0 => [[]]
  | n + 1 => words.flatMap fun u => (repetitions words n).map (u ++ ·)

/-- The words of a pattern, where they can be listed. -/
def words? : Pattern → Option (List (List Char))
  | empty | assert _ => some [[]]
  | one set =>
    match set.ranges with
    | [⟨low, high⟩] => if low = high then some [[Char.ofNat low]] else none
    | _ => none
  | group _ body => body.words?
  | seq a b => do
    let us ← a.words?
    let vs ← b.words?
    return us.flatMap fun u => vs.map (u ++ ·)
  | alt a b => do
    let us ← a.words?
    let vs ← b.words?
    return us ++ vs
  | rounds low high _ body => do
    let most ← high
    let words ← body.words?
    return (List.range (max low most + 1)).flatMap (repetitions words)

theorem mem_repetitions {words : List (List Char)} {language : List Char → Prop}
    (h : ∀ word, language word → word ∈ words) (n : Nat) :
    ∀ word, Repeated language n word → word ∈ repetitions words n := by
  induction n with
  | zero =>
    rintro _ rfl
    simp [repetitions]
  | succ n ih =>
    rintro _ ⟨u, v, rfl, hu, hv⟩
    exact List.mem_flatMap.2 ⟨u, h u hu, List.mem_map_of_mem (ih v hv)⟩

theorem mem_of_words? {pattern : Pattern} {words : List (List Char)} (h : pattern.words? = some words) :
    ∀ word, pattern.Words word → word ∈ words := by
  induction pattern generalizing words with
  | empty =>
    obtain rfl := Option.some.inj h
    rintro _ rfl
    simp
  | assert condition =>
    obtain rfl := Option.some.inj h
    rintro _ rfl
    simp
  | one set =>
    rintro _ ⟨c, rfl, hc⟩
    rw [words?] at h
    split at h
    · next low high hset =>
      split at h
      · next heq =>
        obtain rfl := Option.some.inj h
        rw [CharSet.contains, hset] at hc
        have : c.toNat = low := by
          simp only [List.any_cons, List.any_nil, CodeRange.contains, Bool.or_false,
            Bool.and_eq_true, decide_eq_true_eq] at hc
          omega
        rw [← this, Char.ofNat_toNat]
        simp
      · simp at h
    · simp at h
  | group name body ih => exact ih h
  | seq a b iha ihb =>
    simp only [words?, Option.bind_eq_bind, Option.bind_eq_some_iff, Option.pure_def,
      Option.some.injEq] at h
    obtain ⟨us, hus, vs, hvs, rfl⟩ := h
    rintro _ ⟨u, v, rfl, hu, hv⟩
    exact List.mem_flatMap.2 ⟨u, iha hus u hu, List.mem_map_of_mem (ihb hvs v hv)⟩
  | alt a b iha ihb =>
    simp only [words?, Option.bind_eq_bind, Option.bind_eq_some_iff, Option.pure_def,
      Option.some.injEq] at h
    obtain ⟨us, hus, vs, hvs, rfl⟩ := h
    rintro word (hw | hw)
    · exact List.mem_append_left _ (iha hus word hw)
    · exact List.mem_append_right _ (ihb hvs word hw)
  | rounds low high greedy body ih =>
    simp only [words?, Option.bind_eq_bind, Option.bind_eq_some_iff, Option.pure_def,
      Option.some.injEq] at h
    obtain ⟨most, hmost, us, hus, rfl⟩ := h
    rintro word ⟨n, -, hle, hn⟩
    refine List.mem_flatMap.2 ⟨n, ?_, mem_repetitions (ih hus) n word hn⟩
    have := hle most hmost
    rw [List.mem_range]
    omega

end Pattern

end StyleTokens

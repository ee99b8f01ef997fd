/-
Lengths, numbers and lists of them.

The values of sizes, spacings, positions and radii are lists of items: numbers,
perhaps with a sign and a unit.  What replaces such a value is a list again, of
items and tokens.

* `Item` — a number with what belongs to it;
* `Strung` — pieces with white space between them;
* `Strung.noLead`, `Strung.clearOf` — such a list can be told from a lead;
* `Strung.bears_text` — what replaces a list of items;
* `lengthValues` — the values of a pattern that has such lists for words.
-/
import StyleTokens.Proofs.Revision.Properties

namespace StyleTokens

open Text Pattern

/-- The characters of items: digits, the sign, the point and the unit. -/
def itemSet : CharSet :=
  ⟨[⟨45, 46⟩, ⟨48, 57⟩, ⟨112, 112⟩, ⟨120, 120⟩]⟩

/-- The characters of tokens. -/
def tokenSet : CharSet :=
  ⟨[⟨40, 41⟩, ⟨45, 45⟩, ⟨48, 57⟩, ⟨65, 90⟩, ⟨95, 95⟩, ⟨97, 122⟩]⟩

/-- White space and quotes. -/
def quoteGap : CharSet :=
  ⟨[⟨9, 13⟩, ⟨32, 32⟩, ⟨34, 34⟩, ⟨39, 39⟩]⟩

/-- A number, perhaps with a sign in front of it and a unit behind it. -/
def Item (word : List Char) : Prop :=
  (∃ m d t, word = m ++ d :: t ∧ (m = [] ∨ m = ['-']) ∧ CharSet.digit.contains d = true) ∧
    ∀ c ∈ word, itemSet.contains c = true

/-- An item, or what may replace it. -/
def Piece (word : List Char) : Prop :=
  Item word ∨ IsVariable word

/-- Pieces with white space between them. -/
inductive Strung (piece : List Char → Prop) : List Char → Prop
  | last {p : List Char} : piece p → Strung piece p
  | more {p s rest : List Char} : piece p → s ≠ [] →
      (∀ c ∈ s, CharSet.space.contains c = true) → Strung piece rest →
      Strung piece (p ++ (s ++ rest))

theorem IsVariable.contains {token : List Char} (h : IsVariable token) :
    ∀ c ∈ token, tokenSet.contains c = true := by
  obtain ⟨name, rfl, hname⟩ := h
  have hletter : ∀ c : Char, c.isAlphanum = true ∨ c = '-' ∨ c = '_' → tokenSet.contains c = true := by
    rintro c (h | rfl | rfl)
    · delta Char.isAlphanum Char.isAlpha Char.isUpper Char.isLower Char.isDigit at h
      simp only [Bool.or_eq_true, Bool.and_eq_true, decide_eq_true_eq, ge_iff_le,
        UInt32.le_iff_toNat_le] at h
      have h1 : 'A'.val.toNat = 65 ∧ 'Z'.val.toNat = 90 ∧ 'a'.val.toNat = 97 ∧
        'z'.val.toNat = 122 ∧ '0'.val.toNat = 48 ∧ '9'.val.toNat = 57 := ⟨rfl, rfl, rfl, rfl, rfl, rfl⟩
      have h2 : c.toNat = c.val.toNat := rfl
      simp only [tokenSet, CharSet.contains, CodeRange.contains, List.any_cons, List.any_nil,
        Bool.or_false, Bool.or_eq_true, Bool.and_eq_true, decide_eq_true_eq]
      omega
    · decide
    · decide
  intro c hc
  rcases List.mem_append.1 hc with hc | hc
  · have hall : "var(--".toList.all tokenSet.contains = true := by decide
    exact List.all_eq_true.1 hall c hc
  · rcases List.mem_append.1 hc with hc | hc
    · exact hletter c (hname c hc)
    · rw [List.mem_singleton.1 hc]
      decide

/-- A piece begins with a digit, the sign or the first letter of tokens. -/
theorem Piece.head {p : List Char} (h : Piece p) : ∃ c t, p = c :: t ∧
    startSet.contains c = false ∧ quoteGap.contains c = false := by
  rcases h with ⟨⟨m, d, t, rfl, rfl | rfl, hd⟩, -⟩ | ⟨name, rfl, -⟩
  · exact ⟨d, t, rfl, CharSet.not_contains_of_apart .digit _ (by decide) hd,
      CharSet.not_contains_of_apart .digit _ (by decide) hd⟩
  · exact ⟨'-', d :: t, rfl, by decide, by decide⟩
  · exact ⟨'v', "ar(--".toList ++ (name ++ [')']), rfl, by decide, by decide⟩

theorem Piece.not_boundary {p : List Char} (h : Piece p) :
    ∀ c ∈ p, boundarySet.contains c = false := by
  intro c hc
  rcases h with h | h
  · exact CharSet.not_contains_of_apart itemSet _ (by decide) (h.2 c hc)
  · exact CharSet.not_contains_of_apart tokenSet _ (by decide) (h.contains c hc)

namespace Strung

variable {piece other : List Char → Prop} {v : List Char}

theorem mono (h : Strung piece v) (hp : ∀ p, piece p → other p) : Strung other v := by
  induction h with
  | last hpiece => exact .last (hp _ hpiece)
  | more hpiece hne hs _ ih => exact .more (hp _ hpiece) hne hs ih

/-- A list begins with a piece. -/
theorem exists_piece (h : Strung piece v) : ∃ p rest, v = p ++ rest ∧ piece p := by
  cases h with
  | last hp => exact ⟨v, [], by simp, hp⟩
  | more hp hne hs _ => exact ⟨_, _, rfl, hp⟩

theorem head (h : Strung Piece v) : ∃ c t, v = c :: t ∧
    startSet.contains c = false ∧ quoteGap.contains c = false := by
  obtain ⟨p, rest, rfl, hp⟩ := h.exists_piece
  obtain ⟨c, t, rfl, hc⟩ := hp.head
  exact ⟨c, t ++ rest, rfl, hc⟩

theorem noLead (h : Strung Piece v) : NoLead v := by
  constructor
  · obtain ⟨p, rest, rfl, ⟨⟨m, d, t, rfl, hm, hd⟩, -⟩ | ⟨name, rfl, -⟩⟩ := h.exists_piece
    · refine ⟨m, d, t ++ rest, by simp, ?_, ?_, CharSet.not_contains_of_apart .digit _ (by decide) hd,
        CharSet.not_contains_of_apart .digit _ (by decide) hd⟩
      · rcases hm with rfl | rfl <;> decide
      · rintro rfl
        exact absurd hd (by decide)
    · exact ⟨"var".toList, '(', "--".toList ++ (name ++ [')']) ++ rest, by simp, by decide,
        by decide, by decide, by decide⟩
  · induction h with
    | last hp =>
      rintro x c y rfl hc
      rw [hp.not_boundary c (by simp)] at hc
      exact absurd hc (by simp)
    | @more p s rest hp hne hs hrest ih =>
      intro x c y hsplit hc
      obtain ⟨d, t, rfl, hd, -⟩ := hrest.head
      rcases List.append_eq_append_iff.1 hsplit with ⟨m, rfl, hm⟩ | ⟨m, rfl, hm⟩
      · -- Behind the first piece there is white space, and then the next piece.
        rcases List.append_eq_append_iff.1 hm with ⟨n, rfl, hn⟩ | ⟨n, hs', hn⟩
        · exact ih n c y hn hc
        · cases n with
          | nil => exact ih [] c y (by simpa using hn.symm) hc
          | cons b n =>
            obtain ⟨rfl, rfl⟩ := List.cons.inj hn
            cases n with
            | nil => exact ⟨d, t, rfl, hd⟩
            | cons b n =>
              exact ⟨b, n ++ d :: t, rfl, CharSet.not_contains_of_apart .space _
                (by decide) (hs b (by simp [hs']))⟩
      · cases m with
        | nil =>
          -- The boundary is the first of the white space.
          obtain ⟨b, s, rfl⟩ := List.exists_cons_of_ne_nil hne
          obtain ⟨rfl, rfl⟩ := List.cons.inj hm
          cases s with
          | nil => exact ⟨d, t, rfl, hd⟩
          | cons b s =>
            exact ⟨b, s ++ d :: t, rfl, CharSet.not_contains_of_apart .space _
              (by decide) (hs b (by simp))⟩
        | cons b m =>
          obtain ⟨rfl, -⟩ := List.cons.inj hm
          rw [hp.not_boundary c (by simp)] at hc
          exact absurd hc (by simp)

theorem clearOf (h : Strung Piece v) (v' : List Char) : ClearOf quoteGap v v' := by
  intro z r r' htext hz
  obtain ⟨c, t, rfl, -, hc⟩ := h.head
  obtain ⟨d, z, rfl⟩ := List.exists_cons_of_ne_nil hz
  obtain ⟨rfl, -⟩ := List.cons.inj htext
  exact ⟨c, List.mem_cons_self, hc⟩

/-- Runs of a list: its first piece, the white space behind it, and those of the rest. -/
theorem runs_more {p s rest : List Char} (hp : p ≠ []) (hsolid : ∀ c ∈ p, isBlank c = false)
    (hne : s ≠ []) (hs : ∀ c ∈ s, isBlank c = true)
    (hrest : ∃ c t, rest = c :: t ∧ isBlank c = false) :
    runs (p ++ (s ++ rest)) = p :: s :: runs rest := by
  obtain ⟨c, t, rfl, hc⟩ := hrest
  have hgap : runs (s ++ c :: t) = s :: runs (c :: t) := by
    rw [runs_append_of_meet, runs_of_forall hne hs, List.singleton_append]
    rintro e _ he ⟨⟩
    rw [hs e (List.mem_of_getLast? he), hc]
    simp
  have hitem : IsItem [] p (s ++ c :: t) := by
    refine ⟨hp, hsolid, by simp, fun d hd => ?_⟩
    rw [List.head?_append_of_ne_nil _ hne] at hd
    exact hs d (List.mem_of_mem_head? hd)
  rw [← hgap]
  exact hitem.runs_eq

end Strung

/-! ### What replaces a list -/

theorem isBlank_of_space {c : Char} (h : CharSet.space.contains c = true) : isBlank c = true := by
  simp only [CharSet.space, CharSet.single, CharSet.contains_union, CharSet.contains_span,
    Bool.or_eq_true, Bool.and_eq_true, decide_eq_true_eq] at h
  have h1 : '\t'.toNat = 9 ∧ '\r'.toNat = 13 ∧ ' '.toNat = 32 := ⟨rfl, rfl, rfl⟩
  simp only [isBlank, Bool.or_eq_true, Bool.and_eq_true, decide_eq_true_eq, beq_iff_eq]
  omega

/-- The visible ASCII characters. -/
def visibleSet : CharSet :=
  ⟨[⟨33, 126⟩]⟩

theorem not_isBlank_of_visible {c : Char} (h : visibleSet.contains c = true) : isBlank c = false := by
  simp only [visibleSet, CharSet.contains, CodeRange.contains, List.any_cons, List.any_nil,
    Bool.or_false, Bool.and_eq_true, decide_eq_true_eq] at h
  exact isBlank_of_visible h.1 h.2

theorem not_isBlank_of_item {c : Char} (h : itemSet.contains c = true) :
    isBlank c = false ∧ endsValue (some c) = false := by
  have hblank := not_isBlank_of_visible (CharSet.contains_of_inside itemSet visibleSet
    (by decide) h)
  refine ⟨hblank, ?_⟩
  rw [Bool.eq_false_iff]
  intro hend
  simp only [endsValue, hblank, Bool.false_or, List.contains_iff_mem, List.mem_cons,
    List.not_mem_nil, or_false] at hend
  rcases hend with rfl | rfl | rfl | rfl | rfl | rfl | rfl <;> exact absurd h (by decide)

theorem Item.ne_nil {p : List Char} (h : Item p) : p ≠ [] := by
  obtain ⟨⟨m, d, t, rfl, -⟩, -⟩ := h
  simp

theorem Item.exists_last {p : List Char} (h : Item p) : ∃ u e, p = u ++ [e] :=
  p.eq_nil_or_concat'.resolve_left h.ne_nil

namespace Strung

variable {v : List Char}

/-- A list of items can be read again when parts of it have been replaced. -/
theorem readable (h : Strung Item v) (rule : Rule) : Readable rule v := by
  have hchars : ∀ c ∈ v, itemSet.contains c = true ∨ CharSet.space.contains c = true := by
    induction h with
    | last hp => exact fun c hc => Or.inl (hp.2 c hc)
    | more hp _ hs _ ih =>
      intro c hc
      rcases List.mem_append.1 hc with hc | hc
      · exact Or.inl (hp.2 c hc)
      · rcases List.mem_append.1 hc with hc | hc
        · exact Or.inr (hs c hc)
        · exact ih c hc
  have hnot : ∀ c, itemSet.contains c = false → CharSet.space.contains c = false → c ∉ v := by
    intro c h1 h2 hc
    rcases hchars c hc with h | h
    · rw [h1] at h
      exact absurd h (by simp)
    · rw [h2] at h
      exact absurd h (by simp)
  constructor
  · intro c hc
    obtain ⟨p, rest, rfl, hp⟩ := h.exists_piece
    obtain ⟨u, e, rfl⟩ := hp.exists_last
    cases u with
    | nil =>
      obtain rfl : e = c := by simpa using hc
      exact (not_isBlank_of_item (hp.2 e (by simp))).1
    | cons d u =>
      obtain rfl : d = c := by simpa using hc
      exact (not_isBlank_of_item (hp.2 d (by simp))).1
  · induction h with
    | last hp =>
      obtain ⟨u, e, rfl⟩ := hp.exists_last
      exact ⟨u, e, rfl, (not_isBlank_of_item (hp.2 e (by simp))).1⟩
    | @more p s rest _ _ _ _ ih =>
      obtain ⟨u, e, rfl, he⟩ := ih (fun c hc => hchars c (by simp [hc]))
        (fun c h1 h2 hc => hnot c h1 h2 (by simp [hc]))
      exact ⟨p ++ (s ++ u), e, by simp, he⟩
  · exact ⟨hnot _ (by decide) (by decide), hnot _ (by decide) (by decide),
      hnot _ (by decide) (by decide)⟩
  · intro _ c hc hend
    rcases hchars c hc with h | h
    · rw [(not_isBlank_of_item h).2] at hend
      exact absurd hend (by simp)
    · exact isBlank_of_space h

/-- **What replaces a list of items is a list of items and tokens.** -/
theorem bears_text {table : TokenTable} {rule : Rule} (htable : table.HasVariables)
    (h : Strung Item v) : Strung Piece (Substitution.ofValue table rule v).text := by
  have hpart : ∀ p, Item p → Piece ((Treatment.ofPart table rule.category p).token?.getD p) := by
    intro p hp
    cases ht : (Treatment.ofPart table rule.category p).token? with
    | none => exact Or.inl hp
    | some token =>
      obtain ⟨-, word, hlookup, rfl⟩ := Treatment.ofPart_token? ht
      exact Or.inr (htable.lookup hlookup)
  cases hsplit : rule.splitValues with
  | false =>
    rw [Substitution.ofValue, hsplit]
    cases ht : (Treatment.ofPart table rule.category v).token? with
    | none =>
      simp only [Bool.false_eq_true, if_false, Substitution.text, List.map_cons, List.map_nil, ht,
        Option.getD_none, List.flatten_cons, List.flatten_nil, List.append_nil]
      exact h.mono fun p hp => Or.inl hp
    | some token =>
      obtain ⟨-, word, hlookup, rfl⟩ := Treatment.ofPart_token? ht
      simp only [Bool.false_eq_true, if_false, Substitution.text, List.map_cons, List.map_nil, ht,
        Option.getD_some, List.flatten_cons, List.flatten_nil, List.append_nil]
      exact .last (Or.inr (htable.lookup hlookup))
  | true =>
    have htext : ∀ v, (Substitution.ofValue table rule v).text = ((runs v).map fun p =>
        (Treatment.ofPart table rule.category p).token?.getD p).flatten := fun v => by
      rw [Substitution.ofValue, hsplit, Substitution.text, List.map_map]
      rfl
    have hsolid : ∀ p, Item p → ∀ c ∈ p, isBlank c = false := fun p hp c hc =>
      (not_isBlank_of_item (hp.2 c hc)).1
    induction h with
    | @last p hp =>
      rw [htext, runs_of_forall hp.ne_nil (hsolid p hp), List.map_singleton,
        List.flatten_singleton]
      exact .last (hpart p hp)
    | @more p s rest hp hne hs hrest ih =>
      have hblank : allBlank s = true := List.all_eq_true.2 fun c hc => isBlank_of_space (hs c hc)
      have hkept : (Treatment.ofPart table rule.category s).token? = none := by
        rw [Treatment.ofPart, if_pos hblank]
        rfl
      obtain ⟨c, t, hct, -⟩ := (hrest.mono fun p hp => (Or.inl hp : Piece p)).head
      rw [htext, runs_more hp.ne_nil (hsolid p hp) hne (fun c hc => isBlank_of_space (hs c hc))
        ⟨c, t, hct, (hrest.readable rule).head c (by simp [hct])⟩, List.map_cons, List.map_cons,
        List.flatten_cons, List.flatten_cons, hkept, Option.getD_none, ← htext]
      exact .more (hpart p hp) hne hs ih

end Strung

/-- The values of a pattern whose words are lists of items. -/
theorem lengthValues {p : Property} {table : TokenTable} (htable : table.HasVariables) (rule : Rule)
    (h : ∀ w, p.value.Words w → Strung Item w) : p.Values table rule (Strung Piece) where
  readable w hw := (h w hw).readable rule
  bears_of_words w hw := (h w hw).mono fun _ hp => Or.inl hp
  ne_nil v hv := by
    obtain ⟨c, t, rfl, -⟩ := hv.head
    simp
  bears_text w hw _ := (h w hw).bears_text htable

/-! ### Patterns of lengths -/

namespace Builtin

/-- One digit or more. -/
def digits : Pattern :=
  .rounds 1 none true (.one .digit)

/-- A number of pixels, piece by piece. -/
def pixelPieces : List Pattern :=
  [digits, .rounds 0 (some 1) true (.seq (.one (.single '.')) digits), .one (.single 'p'),
    .one (.single 'x')]

/-- Pieces with or without a sign in front of them. -/
def signed (pieces : List Pattern) : List Pattern :=
  .rounds 0 (some 1) true (.one (.single '-')) :: pieces

/-- A length that may be negative or zero, piece by piece. -/
def marginPieces : List Pattern :=
  signed [.alt (seqOf pixelPieces) (.one (.single '0'))]

/-- A list of up to so many more parts than one. -/
def list (pieces : List Pattern) (more : Nat) : Pattern :=
  seqOf (pieces ++
    [.rounds 0 (some more) true (seqOf (.rounds 1 none true (.one .space) :: pieces))])

theorem digit_of_digits {w : List Char} (h : digits.Words w) :
    ∃ d t, w = d :: t ∧ CharSet.digit.contains d = true := by
  obtain ⟨hlen, -, hall⟩ := words_rounds_one.1 h
  obtain ⟨d, t, rfl⟩ := List.exists_cons_of_length_pos hlen
  exact ⟨d, t, rfl, hall d List.mem_cons_self⟩

theorem digit_of_pixels {w : List Char} (h : WordsSeq pixelPieces w) :
    ∃ d t, w = d :: t ∧ CharSet.digit.contains d = true := by
  obtain ⟨u, v, rfl, hu, -⟩ := h
  obtain ⟨d, t, rfl, hd⟩ := digit_of_digits hu
  exact ⟨d, t ++ v, rfl, hd⟩

theorem item_of_digits {w : List Char} (h : digits.Words w) : Item w := by
  obtain ⟨d, t, rfl, hd⟩ := digit_of_digits h
  exact ⟨⟨[], d, t, rfl, Or.inl rfl, hd⟩, contains_of_within (by decide) _ h⟩

theorem item_of_pixels {w : List Char} (h : WordsSeq pixelPieces w) : Item w := by
  obtain ⟨d, t, rfl, hd⟩ := digit_of_pixels h
  exact ⟨⟨[], d, t, rfl, Or.inl rfl, hd⟩, contains_of_wordsSeq (by decide) h⟩

/-- A sign in front of a number makes an item. -/
theorem item_of_signed {pieces : List Pattern} (hin : (signed pieces).all (within itemSet) = true)
    (hpieces : ∀ w, WordsSeq pieces w → ∃ d t, w = d :: t ∧ CharSet.digit.contains d = true)
    {w : List Char} (h : WordsSeq (signed pieces) w) : Item w := by
  refine ⟨?_, contains_of_wordsSeq hin h⟩
  obtain ⟨m, v, rfl, hm, hv⟩ := h
  obtain ⟨d, t, rfl, hd⟩ := hpieces v hv
  refine ⟨m, d, t, rfl, ?_, hd⟩
  obtain ⟨-, hle, hall⟩ := words_rounds_one.1 hm
  have hlen := hle 1 rfl
  match m, hlen, hall with
  | [], _, _ => exact Or.inl rfl
  | [c], _, hall =>
    have hc := hall c List.mem_cons_self
    simp only [CharSet.single, CharSet.contains_span, Bool.and_eq_true, decide_eq_true_eq] at hc
    right
    rw [Char.toNat_inj.1 (show c.toNat = '-'.toNat by omega)]

theorem item_of_signed_pixels {w : List Char} (h : WordsSeq (signed pixelPieces) w) : Item w :=
  item_of_signed (by decide) (fun _ => digit_of_pixels) h

theorem item_of_margin {w : List Char} (h : WordsSeq marginPieces w) : Item w := by
  refine item_of_signed (by decide) ?_ h
  rintro _ ⟨u, _, rfl, hu | ⟨c, rfl, hc⟩, rfl⟩
  · obtain ⟨d, t, rfl, hd⟩ := digit_of_pixels ((words_seqOf _ _).1 hu)
    exact ⟨d, t, by simp, hd⟩
  · refine ⟨c, [], rfl, ?_⟩
    exact CharSet.contains_of_inside (.single '0') _ (by decide) hc

/-- A list of items. -/
theorem strung_of_list {pieces : List Pattern} {more : Nat}
    (hpieces : ∀ w, WordsSeq pieces w → Item w) {w : List Char} (h : (list pieces more).Words w) :
    Strung Item w := by
  have key : ∀ (n : Nat) (p rest : List Char), Item p →
      Repeated (seqOf (.rounds 1 none true (.one .space) :: pieces)).Words n rest →
      Strung Item (p ++ rest) := by
    intro n
    induction n with
    | zero =>
      rintro p _ hp rfl
      rw [List.append_nil]
      exact .last hp
    | succ n ih =>
      rintro p _ hp ⟨u, v, rfl, hu, hv⟩
      obtain ⟨s, q, rfl, hs, hq⟩ := (words_seqOf _ _).1 hu
      obtain ⟨hlen, -, hall⟩ := words_rounds_one.1 hs
      rw [List.append_assoc]
      exact .more hp (List.ne_nil_of_length_pos hlen) hall (ih q v (hpieces q hq) hv)
  obtain ⟨u, v, rfl, hu, x, y, rfl, ⟨n, -, -, hn⟩, rfl⟩ :=
    wordsSeq_append.1 ((words_seqOf _ _).1 h)
  rw [List.append_nil]
  exact key n u x (hpieces u hu) hn

end Builtin

end StyleTokens

/-
Exchanging a part of a text outside its comments.

The comments of a text are found by reading it from the start, so a change at
one place could open or close a comment anywhere behind it.  It does not, if the
place touches no comment and what is put there cannot be mistaken for a part of
an opener or closer.

* `spans_inText` — comments are parts of the text;
* `Inert` — words that take part in no opener and no closer;
* `exists_spansFrom_append` — up to a free place, the text is read in the same
  way with an inert word there;
* `exists_spans_exchange` — the comments before and after an exchange;
* `slices_exchange` — what they say is the same.
-/
import StyleTokens.Comment
import StyleTokens.Proofs.Text.Boundary

namespace StyleTokens.Comment

open Text

/-- The span moved on by a number of bytes. -/
def shift (bytes : Nat) (span : Span) : Span :=
  ⟨span.start + bytes, span.stop + bytes⟩

/-- Comments are found in the same way wherever a text begins. -/
theorem spansFrom_add (bytes : Nat) (text : List Char) :
    ∀ (current : Option (Form × Nat)) (skip offset : Nat),
      spansFrom (current.map fun (form, start) => (form, start + bytes)) skip (offset + bytes) text =
        (spansFrom current skip offset text).map (shift bytes) := by
  induction text with
  | nil =>
    intro current skip offset
    rcases current with _ | ⟨form, start⟩ <;> simp [spansFrom, shift]
  | cons c rest ih =>
    intro current skip offset
    have next : ∀ size, offset + bytes + size = offset + size + bytes := fun size => by omega
    rcases skip with _ | skip
    · rcases current with _ | ⟨form, start⟩
      · simp only [Option.map_none, spansFrom]
        cases ho : opening? (c :: rest) with
        | none =>
          dsimp only
          rw [next]
          exact ih none 0 _
        | some form =>
          dsimp only
          rw [next]
          exact ih (some (form, offset)) _ _
      · simp only [Option.map_some, spansFrom]
        split
        · rw [next, List.map_cons, ← ih none]
          simp only [Option.map_none, shift, Nat.add_right_comm]
        · rw [next]
          exact ih (some (form, start)) 0 _
    · rw [spansFrom, spansFrom, next]
      exact ih current skip _

theorem spansFrom_shift (bytes : Nat) (text : List Char) :
    spansFrom none 0 bytes text = (spans text).map (shift bytes) := by
  have := spansFrom_add bytes text none 0 0
  rwa [Option.map_none, Nat.zero_add] at this

theorem slice_shift (front text : List Char) (span : Span) :
    slice (shift (byteLength front) span) (front ++ text) = slice span text := by
  have hd : ∀ n, dropBytes (n + byteLength front) (front ++ text) = dropBytes n text := by
    intro n
    induction front with
    | nil => rfl
    | cons c front ih =>
      have := c.utf8Size_pos
      rw [byteLength, List.cons_append, dropBytes, if_neg (by omega), ← ih]
      congr 1
      omega
  rw [slice, slice, shift, Span.length, Span.length, hd]
  dsimp only
  rw [Nat.add_sub_add_right]

/-- The bytes of a closer that belong to the comment. -/
theorem closed_le (form : Form) :
    form.closed = byteLength (form.closer.take form.closed) := by
  cases form <;> rfl

/-- Comments are parts of the text. -/
theorem spansFrom_inText {text : List Char} (rest : List Char) :
    ∀ (current : Option (Form × Nat)) (skip : Nat) (front : List Char), text = front ++ rest →
      (∀ p ∈ current, IsBoundary text p.2 ∧ p.2 ≤ byteLength front) →
      ∀ span ∈ spansFrom current skip (byteLength front) rest, span.InText text := by
  induction rest with
  | nil =>
    intro current skip front htext hcur span hs
    rcases current with _ | ⟨form, start⟩
    · simp [spansFrom] at hs
    · obtain ⟨hb, hle⟩ := hcur _ rfl
      simp only [spansFrom, List.mem_singleton] at hs
      subst hs
      exact ⟨hb, htext ▸ isBoundary_append front [], hle⟩
  | cons c rest ih =>
    intro current skip front htext hcur span hs
    have hsnoc : byteLength front + c.utf8Size = byteLength (front ++ [c]) := by simp [byteLength]
    have htext' : text = (front ++ [c]) ++ rest := by simp [htext]
    have hlater : ∀ p : Form × Nat, IsBoundary text p.2 ∧ p.2 ≤ byteLength front →
        IsBoundary text p.2 ∧ p.2 ≤ byteLength (front ++ [c]) := by
      rintro p ⟨h1, h2⟩
      exact ⟨h1, by omega⟩
    rcases skip with _ | skip
    · rcases current with _ | ⟨form, start⟩
      · rw [spansFrom] at hs
        split at hs
        · rw [hsnoc] at hs
          refine ih _ _ _ htext' ?_ span hs
          rintro _ ⟨⟩
          exact hlater _ ⟨htext ▸ isBoundary_append front _, le_rfl⟩
        · rw [hsnoc] at hs
          exact ih none 0 _ htext' (by simp) span hs
      · obtain ⟨hb, hle⟩ := hcur _ rfl
        rw [spansFrom] at hs
        split at hs
        · next hc =>
          rcases List.mem_cons.1 hs with rfl | hs
          · obtain ⟨tail, htail⟩ := List.isPrefixOf_iff_prefix.1 hc
            refine ⟨hb, ?_, by dsimp only; omega⟩
            rw [closed_le, ← byteLength_append]
            refine ⟨_, form.closer.drop form.closed ++ tail, ?_, rfl⟩
            rw [htext, ← htail, List.append_assoc, ← List.append_assoc (form.closer.take _),
              List.take_append_drop]
          · rw [hsnoc] at hs
            exact ih none _ _ htext' (by simp) span hs
        · rw [hsnoc] at hs
          refine ih _ 0 _ htext' ?_ span hs
          rintro _ ⟨⟩
          exact hlater _ ⟨hb, hle⟩
    · rw [spansFrom, hsnoc] at hs
      exact ih current skip _ htext' (fun p hp => hlater p (hcur p hp)) span hs

theorem spans_inText {text : List Char} {span : Span} (h : span ∈ spans text) :
    span.InText text :=
  spansFrom_inText text none 0 [] rfl (by simp) span h

/-! ### Openers and closers -/

theorem opening?_eq_some {text : List Char} {form : Form} (h : opening? text = some form) :
    form.opener <+: text := by
  unfold opening? at h
  exact List.isPrefixOf_iff_prefix.1 (by simpa using List.find?_some h)

theorem opening?_eq_none {text : List Char} :
    opening? text = none ↔ ∀ form : Form, ¬ form.opener <+: text := by
  unfold opening?
  rw [List.find?_eq_none]
  constructor
  · intro h form hp
    exact h form (by cases form <;> decide) (List.isPrefixOf_iff_prefix.2 hp)
  · intro h form _ hp
    exact h form (List.isPrefixOf_iff_prefix.1 hp)

/-- No two openers begin the same text. -/
theorem opening?_eq_some_iff {text : List Char} {form : Form} :
    opening? text = some form ↔ form.opener <+: text := by
  refine ⟨opening?_eq_some, fun h => ?_⟩
  cases hf : opening? text with
  | none => exact absurd h (opening?_eq_none.1 hf form)
  | some other =>
    rcases List.prefix_or_prefix_of_prefix (opening?_eq_some hf) h with hp | hp <;>
      revert hp <;> cases other <;> cases form <;> decide

/-- A word that takes part in no opener and no closer: its first character stands
in none of them, and no opener begins in it. -/
structure Inert (word : List Char) : Prop where
  head : ∃ c rest, word = c :: rest ∧ ∀ form : Form, c ∉ form.opener ∧ c ∉ form.closer
  free : '/' ∉ word ∧ '<' ∉ word

/-- A sign does not reach a character that it does not have. -/
theorem prefix_of_prefix_append {sign front rest : List Char} {c : Char} (hc : c ∉ sign)
    (h : sign <+: front ++ c :: rest) : sign <+: front := by
  rcases List.prefix_or_prefix_of_prefix h (List.prefix_append front _) with hp | ⟨tail, rfl⟩
  · exact hp
  · rw [List.prefix_append_right_inj] at h
    cases tail with
    | nil => simp
    | cons d tail =>
      obtain ⟨rfl, -⟩ := List.cons_prefix_cons.1 h
      simp at hc

/-- The first comment that ends from here on ends behind its closer, or with the
text. -/
theorem exists_stop (form : Form) (start skip offset : Nat) (text : List Char) :
    ∃ stop later, spansFrom (some (form, start)) skip offset text = ⟨start, stop⟩ :: later ∧
      offset + byteLength (text.take (skip + form.closed)) ≤ stop := by
  induction text generalizing skip offset with
  | nil => exact ⟨offset, [], by simp [spansFrom], by simp⟩
  | cons c rest ih =>
    have hpos := c.utf8Size_pos
    rcases skip with _ | skip
    · rw [spansFrom]
      split
      · next hc =>
        obtain ⟨tail, htail⟩ := List.isPrefixOf_iff_prefix.1 hc
        refine ⟨_, _, rfl, ?_⟩
        rw [← htail, Nat.zero_add, List.take_append_of_le_length (by cases form <;> decide),
          ← closed_le]
      · obtain ⟨stop, later, h1, h2⟩ := ih 0 (offset + c.utf8Size)
        refine ⟨stop, later, h1, ?_⟩
        rcases hn : 0 + form.closed with _ | n
        · simp only [List.take_zero, byteLength_nil]
          omega
        · have hle : byteLength (rest.take n) ≤ byteLength (rest.take (n + 1)) := by
            rw [List.take_add_one, byteLength_append]
            omega
          rw [hn] at h2
          rw [List.take_succ_cons, byteLength]
          omega
    · obtain ⟨stop, later, h1, h2⟩ := ih skip (offset + c.utf8Size)
      refine ⟨stop, later, h1, ?_⟩
      rw [Nat.add_right_comm, List.take_succ_cons, byteLength]
      omega

/-- A comment that takes characters beyond a part of a text ends beyond it. -/
theorem lt_byteLength_take (front : List Char) {rest : List Char} {n : Nat} (hr : rest ≠ [])
    (hn : front.length < n) : byteLength front < byteLength ((front ++ rest).take n) := by
  obtain ⟨c, rest, rfl⟩ := List.exists_cons_of_ne_nil hr
  obtain ⟨m, rfl⟩ := Nat.exists_eq_add_of_lt hn
  have hpos := c.utf8Size_pos
  rw [List.take_append, List.take_of_length_le (by omega), byteLength_append,
    show front.length + m + 1 - front.length = m + 1 by omega, List.take_succ_cons, byteLength]
  omega

/-- A comment that is open does not end at once, unless a line ends. -/
theorem exists_stop_lt (form : Form) (start skip offset : Nat) {text : List Char}
    (ht : text ≠ []) (hline : text.head? ≠ some '\n') :
    ∃ stop later, spansFrom (some (form, start)) skip offset text = ⟨start, stop⟩ :: later ∧
      offset < stop := by
  rcases Nat.eq_zero_or_pos (skip + form.closed) with h | h
  · obtain ⟨c, rest, rfl⟩ := List.exists_cons_of_ne_nil ht
    obtain rfl : form = .line := by cases form <;> simp [Form.closed] at h ⊢
    obtain rfl : skip = 0 := by omega
    have hc : Form.line.closer.isPrefixOf (c :: rest) = false := by
      simp only [List.head?_cons, ne_eq, Option.some.injEq] at hline
      simp [Form.closer, List.isPrefixOf, Ne.symm hline]
    obtain ⟨stop, later, h1, h2⟩ := exists_stop .line start 0 (offset + c.utf8Size) rest
    have hpos := c.utf8Size_pos
    exact ⟨stop, later, by rw [spansFrom, hc]; exact h1, by omega⟩
  · obtain ⟨stop, later, h1, h2⟩ := exists_stop form start skip offset text
    have := lt_byteLength_take [] ht h
    rw [List.nil_append, byteLength_nil] at this
    exact ⟨stop, later, h1, by omega⟩

/-- No comment overlaps the bytes from `start` to `stop`. -/
def FreeOf (found : List Span) (start stop : Nat) : Prop :=
  ∀ span ∈ found, span.stop ≤ start ∨ stop ≤ span.start

/-- Up to a free place, a text is read in the same way with an inert word there,
and all comments found so far end before it. -/
theorem exists_spansFrom_append {old word : List Char} (hold : old ≠ [])
    (hline : old.head? ≠ some '\n') (hword : Inert word) (post pre : List Char) :
    ∀ (current : Option (Form × Nat)) (skip offset : Nat),
      (current = none → skip ≤ pre.length) → (∀ p ∈ current, p.2 ≤ offset) →
      FreeOf (spansFrom current skip offset (pre ++ (old ++ post)))
        (offset + byteLength pre) (offset + byteLength pre + byteLength old) →
      ∃ before : List Span,
        spansFrom current skip offset (pre ++ (old ++ post)) =
          before ++ spansFrom none 0 (offset + byteLength pre) (old ++ post) ∧
        spansFrom current skip offset (pre ++ (word ++ post)) =
          before ++ spansFrom none 0 (offset + byteLength pre) (word ++ post) ∧
        ∀ span ∈ before, span.stop ≤ offset + byteLength pre := by
  have hlen := byteLength_pos hold
  obtain ⟨d, old', hd⟩ := List.exists_cons_of_ne_nil hold
  have hne : old ++ post ≠ [] := by simp [hold]
  -- What follows does not matter to a sign that ends before the place.
  have hsign : ∀ (front sign : List Char), (∀ c ∈ word.head?, c ∉ sign) →
      (sign <+: front ++ (old ++ post) → sign.length ≤ front.length) →
      (sign <+: front ++ (old ++ post) ↔ sign <+: front ++ (word ++ post)) := by
    intro front sign hc hle
    obtain ⟨c, w, rfl, -⟩ := hword.head
    constructor
    · intro h
      exact (List.prefix_of_prefix_length_le h (List.prefix_append _ _) (hle h)).trans
        (List.prefix_append _ _)
    · intro h
      exact (prefix_of_prefix_append (hc c rfl) h).trans (List.prefix_append _ _)
  have hhead : ∀ form : Form, (∀ c ∈ word.head?, c ∉ form.opener) ∧
      ∀ c ∈ word.head?, c ∉ form.closer := by
    obtain ⟨c, w, rfl, hc⟩ := hword.head
    intro form
    simpa using hc form
  induction pre with
  | nil =>
    intro current skip offset hskip hcur hfree
    rcases current with _ | ⟨form, start⟩
    · obtain rfl : skip = 0 := by simpa using hskip rfl
      exact ⟨[], rfl, rfl, by simp⟩
    · obtain ⟨stop, later, h1, h2⟩ := exists_stop_lt form start skip offset hne
        (by rwa [hd, List.cons_append, List.head?_cons, ← List.head?_cons, ← hd])
      have h3 := hfree ⟨start, stop⟩ (by rw [List.nil_append, h1]; exact List.mem_cons_self)
      have h4 := hcur _ rfl
      simp only [byteLength_nil] at h3 h4
      omega
  | cons c pre ih =>
    intro current skip offset hskip hcur hfree
    have hpos := c.utf8Size_pos
    have hoff : offset + byteLength (c :: pre) = offset + c.utf8Size + byteLength pre := by
      rw [byteLength, Nat.add_assoc]
    have hlater : ∀ p ∈ current, p.2 ≤ offset + c.utf8Size := fun p hp => by
      have := hcur p hp
      omega
    rw [hoff] at hfree ⊢
    rw [List.cons_append] at hfree ⊢
    rw [List.cons_append]
    rcases skip with _ | skip
    · rcases current with _ | ⟨form, start⟩
      · have hreach : ∀ form : Form, form.opener <+: c :: pre ++ (old ++ post) →
            form.opener.length ≤ (c :: pre).length := by
          intro form hp
          by_contra hlong
          -- The comment that opens here would last into the place.
          have ho : opening? (c :: (pre ++ (old ++ post))) = some form :=
            opening?_eq_some_iff.2 hp
          rw [spansFrom, ho] at hfree
          obtain ⟨stop, later, h1, h2⟩ := exists_stop form offset (form.opener.length - 1)
            (offset + c.utf8Size) (pre ++ (old ++ post))
          have h3 := hfree ⟨offset, stop⟩ (by dsimp only; rw [h1]; exact List.mem_cons_self)
          have h4 := lt_byteLength_take pre (n := form.opener.length - 1 + form.closed)
            hne (by simp only [List.length_cons] at hlong; omega)
          dsimp only at h3
          omega
        have hopen : opening? (c :: (pre ++ (old ++ post))) =
            opening? (c :: (pre ++ (word ++ post))) := by
          have key : ∀ form, opening? (c :: (pre ++ (old ++ post))) = some form ↔
              opening? (c :: (pre ++ (word ++ post))) = some form := fun form => by
            rw [opening?_eq_some_iff, opening?_eq_some_iff]
            exact hsign (c :: pre) form.opener (hhead form).1 (hreach form)
          exact Option.ext key
        rw [spansFrom, spansFrom, ← hopen]
        rw [spansFrom] at hfree
        cases ho : opening? (c :: (pre ++ (old ++ post))) with
        | none =>
          rw [ho] at hfree
          exact ih none 0 _ (fun _ => Nat.zero_le _) (by simp) hfree
        | some form =>
          rw [ho] at hfree
          exact ih _ _ _ (by simp) (by rintro _ ⟨⟩; dsimp only; omega) hfree
      · have hstart := hcur _ rfl
        rw [spansFrom] at hfree
        have hreach : form.closer <+: c :: pre ++ (old ++ post) →
            form.closer.length ≤ (c :: pre).length := by
          intro hp
          by_contra hlong
          -- The comment that ends here would take a part of the place.
          have hc : form.closer.isPrefixOf (c :: (pre ++ (old ++ post))) = true :=
            List.isPrefixOf_iff_prefix.2 hp
          rw [if_pos hc] at hfree
          have h3 := hfree _ List.mem_cons_self
          have h4 : form.closed = byteLength form.closer := by
            cases form <;> simp [Form.closer] at hlong ⊢ <;> rfl
          have h5 := lt_byteLength_take (c :: pre) hne (not_le.1 hlong)
          rw [← List.prefix_iff_eq_take.1 hp, ← h4] at h5
          dsimp only at h3 hstart
          rw [byteLength] at h5
          omega
        have hclose : form.closer.isPrefixOf (c :: (pre ++ (old ++ post))) =
            form.closer.isPrefixOf (c :: (pre ++ (word ++ post))) := by
          rw [Bool.eq_iff_iff, List.isPrefixOf_iff_prefix, List.isPrefixOf_iff_prefix]
          exact hsign (c :: pre) form.closer (hhead form).2 hreach
        rw [spansFrom, spansFrom, ← hclose]
        split at hfree
        · next hc =>
          have hshort := hreach (List.isPrefixOf_iff_prefix.1 hc)
          rw [if_pos hc, if_pos hc]
          obtain ⟨before, h1, h2, h3⟩ := ih none (form.closer.length - 1) (offset + c.utf8Size)
            (fun _ => by rw [List.length_cons] at hshort; omega) (by simp)
            (fun span hs => hfree span (List.mem_cons_of_mem _ hs))
          refine ⟨⟨start, offset + form.closed⟩ :: before, by rw [h1]; rfl, by rw [h2]; rfl, ?_⟩
          intro span hs
          rcases List.mem_cons.1 hs with rfl | hs
          · have h4 := hfree _ List.mem_cons_self
            dsimp only at h4 hstart ⊢
            omega
          · exact h3 span hs
        · next hc =>
          rw [if_neg hc, if_neg hc]
          exact ih _ 0 _ (by simp) (by rintro _ ⟨⟩; dsimp only at hstart ⊢; omega) hfree
    · rw [spansFrom] at hfree ⊢
      rw [spansFrom]
      refine ih current skip _ (fun h => ?_) hlater hfree
      have := hskip h
      rw [List.length_cons] at this
      omega

/-- No comment opens in an inert word. -/
theorem spansFrom_of_free {word : List Char} (h : '/' ∉ word ∧ '<' ∉ word) (offset : Nat)
    (post : List Char) :
    spansFrom none 0 offset (word ++ post) = spansFrom none 0 (offset + byteLength word) post := by
  induction word generalizing offset with
  | nil => rfl
  | cons c word ih =>
    simp only [List.mem_cons, not_or] at h
    have ho : opening? (c :: (word ++ post)) = none := by
      rw [opening?_eq_none]
      intro form hp
      cases form <;> simp_all [Form.opener]
    rw [List.cons_append, spansFrom, ho, byteLength, ← Nat.add_assoc]
    exact ih ⟨h.1.2, h.2.2⟩ _

/-- No comment opens where none lies. -/
theorem spansFrom_of_freeOf {old post : List Char} {offset : Nat}
    (h : FreeOf (spansFrom none 0 offset (old ++ post)) offset (offset + byteLength old)) :
    spansFrom none 0 offset (old ++ post) = spansFrom none 0 (offset + byteLength old) post := by
  induction old generalizing offset with
  | nil => rfl
  | cons c old ih =>
    have hpos := c.utf8Size_pos
    rw [List.cons_append, spansFrom, byteLength, ← Nat.add_assoc] at h ⊢
    cases ho : opening? (c :: (old ++ post)) with
    | none =>
      rw [ho] at h
      refine ih fun span hs => ?_
      have := h span hs
      omega
    | some form =>
      rw [ho] at h
      obtain ⟨stop, later, h1, h2⟩ := exists_stop form offset (form.opener.length - 1)
        (offset + c.utf8Size) (old ++ post)
      have := h ⟨offset, stop⟩ (by dsimp only; rw [h1]; exact List.mem_cons_self)
      dsimp only at this
      omega

/-- The comments before and after a free place is exchanged for an inert word:
those before it are the same, those after it move. -/
theorem exists_spans_exchange {pre old post word : List Char} (hold : old ≠ [])
    (hline : old.head? ≠ some '\n') (hword : Inert word)
    (hfree : FreeOf (spans (pre ++ (old ++ post))) (byteLength pre)
      (byteLength pre + byteLength old)) :
    ∃ before : List Span,
      spans (pre ++ (old ++ post)) =
        before ++ (spans post).map (shift (byteLength (pre ++ old))) ∧
      spans (pre ++ (word ++ post)) =
        before ++ (spans post).map (shift (byteLength (pre ++ word))) ∧
      ∀ span ∈ before, span.stop ≤ byteLength pre := by
  obtain ⟨before, h1, h2, h3⟩ := exists_spansFrom_append hold hline hword post pre none 0
    0 (fun _ => Nat.zero_le _) (by simp) (by rw [Nat.zero_add]; exact hfree)
  rw [Nat.zero_add] at h1 h2 h3
  rw [spans] at hfree
  have hrest : FreeOf (spansFrom none 0 (byteLength pre) (old ++ post)) (byteLength pre)
      (byteLength pre + byteLength old) := fun span hs =>
    hfree span (by rw [h1]; exact List.mem_append_right _ hs)
  have hold' := spansFrom_of_freeOf hrest
  refine ⟨before, ?_, ?_, h3⟩
  · rw [spans, h1, hold', spansFrom_shift, byteLength_append]
  · rw [spans, h2, spansFrom_of_free hword.free, spansFrom_shift, byteLength_append]

/-- What the comments of a text say, with their openers and closers. -/
def slices (text : List Char) : List (List Char) :=
  (spans text).map fun span => slice span text

/-- What a span covers does not depend on the text behind it. -/
theorem slice_append_of_le {span : Span} {pre rest : List Char} (h : span.InText (pre ++ rest))
    (hle : span.stop ≤ byteLength pre) (other : List Char) :
    slice span (pre ++ other) = slice span (pre ++ rest) := by
  obtain ⟨a, m, b, ht, hs, hm⟩ := h.parts
  rw [hs, ← byteLength_append] at hle
  obtain ⟨b', rfl, -⟩ := append_eq_append_of_le
    (show (a ++ m) ++ b = pre ++ rest by rw [ht, List.append_assoc]) hle
  rw [hm, hs, List.append_assoc, List.append_assoc, slice_append]

/-- Comments say the same after a free place is exchanged for an inert word. -/
theorem slices_exchange {pre old post word : List Char} (hold : old ≠ [])
    (hline : old.head? ≠ some '\n') (hword : Inert word)
    (hfree : FreeOf (spans (pre ++ (old ++ post))) (byteLength pre)
      (byteLength pre + byteLength old)) :
    slices (pre ++ (word ++ post)) = slices (pre ++ (old ++ post)) := by
  obtain ⟨before, h1, h2, h3⟩ := exists_spans_exchange hold hline hword hfree
  have hlater : ∀ middle : List Char,
      ((spans post).map (shift (byteLength (pre ++ middle)))).map
        (fun span => slice span (pre ++ (middle ++ post))) = slices post := by
    intro middle
    rw [slices, List.map_map, ← List.append_assoc]
    exact List.map_congr_left fun span _ => slice_shift _ _ _
  rw [slices, slices, h1, h2, List.map_append, List.map_append, hlater, hlater]
  congr 1
  refine List.map_congr_left fun span hs => ?_
  exact slice_append_of_le (spans_inText (h1 ▸ List.mem_append_left _ hs)) (h3 span hs) _

end StyleTokens.Comment

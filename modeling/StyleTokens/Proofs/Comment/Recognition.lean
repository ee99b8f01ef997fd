/-
What the comments of a text are.

A comment begins with an opener and ends with the first closer behind it, or with
the text.  The comments of a text are parts of it that follow one another, and
every opener stands inside one of them.  Only one list of spans is like that.

* `Ends` — how far a comment reaches behind its opener;
* `IsComment` — a comment as a part of a text;
* `Reading` — how a text is read, comment by comment;
* `AreComments` — what makes spans the comments of a text;
* `areComments_iff` — they are what `spans` gives.

Design notes: the text is read character by character, so each jump over a comment
is a lemma (`spansFrom_opener`, `spansFrom_of_ends`), and `Reading` is the induction
that these jumps allow.
-/
import StyleTokens.Proofs.Comment.Scan

namespace StyleTokens.Comment

open Text

/-! ### Where a comment ends -/

/-- What belongs to a comment of a form behind its opener, where the text goes on with
`tail`. -/
inductive Ends (form : Form) (tail : List Char) : (inside : List Char) → Prop
  /-- It ends with the first closer, or before it at the end of a line. -/
  | closed {body rest : List Char} (tail_eq : tail = body ++ (form.closer ++ rest))
      (first : ∀ u v, tail = u ++ (form.closer ++ v) → body <+: u) :
      Ends form tail (body ++ form.closer.take form.closed)
  /-- There is no closer, and it ends with the text. -/
  | unclosed (never : ¬ form.closer <:+: tail) : Ends form tail tail

/-- The first place of a sign in a text. -/
theorem exists_first_place {sign text : List Char} (h : sign <:+: text) :
    ∃ body rest, text = body ++ (sign ++ rest) ∧
      ∀ u v, text = u ++ (sign ++ v) → body <+: u := by
  induction text with
  | nil =>
    obtain rfl := List.infix_nil.1 h
    exact ⟨[], [], rfl, fun _ _ _ => List.nil_prefix⟩
  | cons c text ih =>
    by_cases hp : sign <+: c :: text
    · obtain ⟨rest, hrest⟩ := hp
      exact ⟨[], rest, hrest.symm, fun _ _ _ => List.nil_prefix⟩
    · obtain ⟨body, rest, rfl, hfirst⟩ := ih ((List.infix_cons_iff.1 h).resolve_left hp)
      refine ⟨c :: body, rest, rfl, fun u v huv => ?_⟩
      cases u with
      | nil => exact absurd ⟨v, huv.symm⟩ hp
      | cons d u =>
        obtain ⟨rfl, htail⟩ := List.cons.inj huv
        exact List.cons_prefix_cons.2 ⟨rfl, hfirst u v htail⟩

/-- Every comment ends somewhere. -/
theorem exists_ends (form : Form) (tail : List Char) :
    ∃ inside rest, tail = inside ++ rest ∧ Ends form tail inside := by
  by_cases h : form.closer <:+: tail
  · obtain ⟨body, rest, htail, hfirst⟩ := exists_first_place h
    refine ⟨_, form.closer.drop form.closed ++ rest, ?_, .closed htail hfirst⟩
    rw [htail, List.append_assoc, ← List.append_assoc (List.take _ _), List.take_append_drop]
  · exact ⟨tail, [], (List.append_nil tail).symm, .unclosed h⟩

/-- No comment ends twice. -/
theorem Ends.unique {form : Form} {tail inside inside' : List Char} (h : Ends form tail inside)
    (h' : Ends form tail inside') : inside = inside' := by
  have hnever : ∀ {body rest : List Char}, tail = body ++ (form.closer ++ rest) →
      form.closer <:+: tail := fun {body rest} htail =>
    ⟨body, rest, by rw [htail, List.append_assoc]⟩
  cases h with
  | closed htail hfirst =>
    cases h' with
    | closed htail' hfirst' =>
      rw [(hfirst _ _ htail').eq_of_length_le (hfirst' _ _ htail).length_le]
    | unclosed never => exact absurd (hnever htail) never
  | unclosed never =>
    cases h' with
    | closed htail' _ => exact absurd (hnever htail') never
    | unclosed _ => rfl

/-! ### Jumps over comments -/

theorem opening?_opener (form : Form) (rest : List Char) :
    opening? (form.opener ++ rest) = some form :=
  opening?_eq_some_iff.2 (List.prefix_append _ _)

/-- An opener begins a comment. -/
theorem spansFrom_opener (form : Form) (offset : Nat) (rest : List Char) :
    spansFrom none 0 offset (form.opener ++ rest) =
      spansFrom (some (form, offset)) 0 (offset + byteLength form.opener) rest := by
  have ho := opening?_opener form rest
  cases form <;> (rw [Form.opener, List.cons_append] at ho ⊢; rw [spansFrom, ho]; rfl)

/-- A closer ends a comment. -/
theorem spansFrom_closer (form : Form) (start offset : Nat) (rest : List Char) :
    spansFrom (some (form, start)) 0 offset (form.closer ++ rest) =
      ⟨start, offset + form.closed⟩ :: spansFrom none 0 (offset + form.closed)
        (form.closer.drop form.closed ++ rest) := by
  cases form <;> rfl

/-- An open comment is read up to the first closer. -/
theorem spansFrom_until {form : Form} {body rest : List Char} (start offset : Nat)
    (first : ∀ u v, body ++ (form.closer ++ rest) = u ++ (form.closer ++ v) → body <+: u) :
    spansFrom (some (form, start)) 0 offset (body ++ (form.closer ++ rest)) =
      ⟨start, offset + byteLength body + form.closed⟩ ::
        spansFrom none 0 (offset + byteLength body + form.closed)
          (form.closer.drop form.closed ++ rest) := by
  induction body generalizing offset with
  | nil => exact spansFrom_closer form start offset rest
  | cons c body ih =>
    have hc : form.closer.isPrefixOf (c :: (body ++ (form.closer ++ rest))) = false := by
      rw [Bool.eq_false_iff, ne_eq, List.isPrefixOf_iff_prefix]
      rintro ⟨v, hv⟩
      have := (first [] v hv.symm).length_le
      simp at this
    rw [List.cons_append, spansFrom, hc, if_neg Bool.false_ne_true, byteLength, ← Nat.add_assoc]
    refine ih _ fun u v huv => ?_
    have := first (c :: u) v (by rw [List.cons_append, huv, List.cons_append])
    exact (List.cons_prefix_cons.1 this).2

/-- An open comment without a closer is read up to the end of the text. -/
theorem spansFrom_never {form : Form} {tail : List Char} (start offset : Nat)
    (never : ¬ form.closer <:+: tail) :
    spansFrom (some (form, start)) 0 offset tail = [⟨start, offset + byteLength tail⟩] := by
  induction tail generalizing offset with
  | nil => rfl
  | cons c tail ih =>
    rw [List.infix_cons_iff, not_or] at never
    have hc : form.closer.isPrefixOf (c :: tail) = false := by
      rw [Bool.eq_false_iff, ne_eq, List.isPrefixOf_iff_prefix]
      exact never.1
    rw [spansFrom, hc, if_neg Bool.false_ne_true, byteLength, ← Nat.add_assoc]
    exact ih _ never.2

/-- An open comment is read up to where it ends. -/
theorem spansFrom_of_ends {form : Form} {inside rest : List Char} (start offset : Nat)
    (h : Ends form (inside ++ rest) inside) :
    spansFrom (some (form, start)) 0 offset (inside ++ rest) =
      ⟨start, offset + byteLength inside⟩ ::
        spansFrom none 0 (offset + byteLength inside) rest := by
  generalize htail : inside ++ rest = tail at h
  cases h with
  | @closed body rest' tail_eq first =>
    have hrest : rest = form.closer.drop form.closed ++ rest' := by
      rw [tail_eq, List.append_assoc, List.append_cancel_left_eq,
        ← List.take_append_drop form.closed form.closer, List.append_assoc] at htail
      simpa using htail
    subst tail_eq
    rw [spansFrom_until start offset first, hrest, byteLength_append, ← closed_le,
      ← Nat.add_assoc]
  | unclosed never =>
    obtain rfl : rest = [] := by simpa using htail
    exact spansFrom_never start offset never

/-! ### A text comment by comment -/

/-- How a text is read from an offset on, outside comments. -/
inductive Reading : (offset : Nat) → List Char → List Span → Prop
  | done (offset : Nat) : Reading offset [] []
  | plain {offset : Nat} {c : Char} {rest : List Char} {found : List Span}
      (none_opens : opening? (c :: rest) = none)
      (next : Reading (offset + c.utf8Size) rest found) : Reading offset (c :: rest) found
  | comment {offset : Nat} {form : Form} {inside rest : List Char} {found : List Span}
      (ends : Ends form (inside ++ rest) inside)
      (next : Reading (offset + byteLength (form.opener ++ inside)) rest found) :
      Reading offset (form.opener ++ (inside ++ rest))
        (⟨offset, offset + byteLength (form.opener ++ inside)⟩ :: found)

theorem reading_spansFrom (text : List Char) : ∀ offset,
    Reading offset text (spansFrom none 0 offset text) := by
  induction hn : text.length using Nat.strong_induction_on generalizing text with
  | _ n ih =>
    intro offset
    cases ho : opening? text with
    | none =>
      cases text with
      | nil => exact .done offset
      | cons c rest =>
        rw [spansFrom, ho]
        exact .plain ho (ih _ (by simp [← hn]) rest rfl _)
    | some form =>
      obtain ⟨tail, rfl⟩ := opening?_eq_some ho
      obtain ⟨inside, rest, rfl, hends⟩ := exists_ends form tail
      have hlt : rest.length < n := by
        have : form.opener.length ≠ 0 := by cases form <;> decide
        simp only [List.length_append] at hn
        omega
      rw [spansFrom_opener, spansFrom_of_ends _ _ hends, Nat.add_assoc, ← byteLength_append]
      exact .comment hends (ih _ hlt rest rfl _)

/-- A comment as a part of a text. -/
def IsComment (text : List Char) (span : Span) : Prop :=
  ∃ (form : Form) (front inside rest : List Char),
    text = front ++ (form.opener ++ (inside ++ rest)) ∧ Ends form (inside ++ rest) inside ∧
      span = ⟨byteLength front, byteLength front + byteLength (form.opener ++ inside)⟩

/-- An opener stands at an offset of a text. -/
def OpensAt (text : List Char) (offset : Nat) : Prop :=
  ∃ (form : Form) (front rest : List Char),
    text = front ++ (form.opener ++ rest) ∧ offset = byteLength front

theorem IsComment.start_lt_stop {text : List Char} {span : Span} (h : IsComment text span) :
    span.start < span.stop := by
  obtain ⟨form, front, inside, rest, -, -, rfl⟩ := h
  have : form.opener ++ inside ≠ [] := by cases form <;> simp [Form.opener]
  have := byteLength_pos this
  dsimp only
  omega

/-- A comment begins with an opener. -/
theorem IsComment.opensAt {text : List Char} {span : Span} (h : IsComment text span) :
    OpensAt text span.start := by
  obtain ⟨form, front, inside, rest, htext, -, rfl⟩ := h
  exact ⟨form, front, inside ++ rest, htext, rfl⟩

/-- At most one comment begins at each place. -/
theorem IsComment.eq_of_start_eq {text : List Char} {a b : Span} (ha : IsComment text a)
    (hb : IsComment text b) (h : a.start = b.start) : a = b := by
  obtain ⟨form, front, inside, rest, htext, hends, rfl⟩ := ha
  obtain ⟨form', front', inside', rest', htext', hends', rfl⟩ := hb
  obtain ⟨rfl, hopen⟩ := append_inj_of_byteLength (htext.symm.trans htext') h
  obtain rfl : form = form' := by
    rw [← Option.some.injEq, ← opening?_opener form (inside ++ rest), hopen, opening?_opener]
  rw [List.append_cancel_left_eq] at hopen
  rw [hends.unique (hopen ▸ hends')]

namespace Reading

variable {offset : Nat} {text : List Char} {found : List Span}

theorem le_start (h : Reading offset text found) : ∀ span ∈ found, offset ≤ span.start := by
  induction h with
  | done => simp
  | plain _ _ ih =>
    intro span hs
    have := ih span hs
    omega
  | comment _ _ ih =>
    rw [List.forall_mem_cons]
    refine ⟨le_rfl, fun span hs => ?_⟩
    have := ih span hs
    omega

/-- The comments follow one another. -/
theorem apart (h : Reading offset text found) : found.Pairwise fun a b => a.stop ≤ b.start := by
  induction h with
  | done => exact .nil
  | plain _ _ ih => exact ih
  | comment _ next ih => exact List.pairwise_cons.2 ⟨next.le_start, ih⟩

/-- What is found are comments of the whole text. -/
theorem isComment (h : Reading offset text found) : ∀ front : List Char,
    byteLength front = offset → ∀ span ∈ found, IsComment (front ++ text) span := by
  induction h with
  | done => simp
  | @plain offset c rest found _ _ ih =>
    rintro front rfl span hs
    have := ih (front ++ [c]) (by simp [byteLength]) span hs
    rwa [List.append_assoc, List.singleton_append] at this
  | @comment offset form inside rest found ends _ ih =>
    rintro front rfl
    rw [List.forall_mem_cons]
    refine ⟨⟨form, front, inside, rest, rfl, ends, rfl⟩, fun span hs => ?_⟩
    have := ih (front ++ (form.opener ++ inside)) (by rw [byteLength_append]) span hs
    simpa only [List.append_assoc] using this

/-- Every opener from the offset on stands inside a comment that is found. -/
theorem complete (h : Reading offset text found) : ∀ front : List Char,
    byteLength front = offset → ∀ place, offset ≤ place → OpensAt (front ++ text) place →
      ∃ span ∈ found, span.start ≤ place ∧ place < span.stop := by
  induction h with
  | done offset =>
    rintro front rfl _ hle ⟨form, front', rest, htext, rfl⟩
    have hlen := congrArg byteLength htext
    have : form.opener ++ rest ≠ [] := by cases form <;> simp [Form.opener]
    have := byteLength_pos this
    rw [List.append_nil, byteLength_append] at hlen
    omega
  | @plain offset c rest found none_opens _ ih =>
    rintro front rfl place hle hopens
    have hnext := ih (front ++ [c]) (by simp [byteLength]) place
    rw [List.append_assoc, List.singleton_append] at hnext
    refine hnext ?_ hopens
    -- No opener stands at the character itself, so the place lies behind it.
    obtain ⟨form, front', rest', htext, rfl⟩ := hopens
    obtain ⟨m, rfl, hm⟩ := append_eq_append_of_le htext hle
    cases m with
    | nil =>
      rw [List.nil_append] at hm
      rw [hm, opening?_opener] at none_opens
      cases none_opens
    | cons d m =>
      obtain ⟨rfl, -⟩ := List.cons.inj hm
      simp only [byteLength_append, byteLength]
      omega
  | @comment offset form inside rest found _ _ ih =>
    rintro front rfl place hle hopens
    rcases Nat.lt_or_ge place (byteLength front + byteLength (form.opener ++ inside)) with hlt | hge
    · exact ⟨_, List.mem_cons_self, hle, hlt⟩
    · obtain ⟨span, hs, hin⟩ := ih (front ++ (form.opener ++ inside))
        (by rw [byteLength_append]) place hge (by simpa only [List.append_assoc] using hopens)
      exact ⟨span, List.mem_cons_of_mem _ hs, hin⟩

end Reading

/-! ### The comments of a text -/

/-- Spans that are the comments of a text: parts of it that are not empty and follow one
another, each of them a comment, so that every opener stands inside one of them. -/
structure AreComments (text : List Char) (found : List Span) : Prop where
  nonempty : ∀ span ∈ found, span.start < span.stop
  inText : ∀ span ∈ found, span.InText text
  increasing : found.Pairwise fun a b => a.start < b.start
  disjoint : found.Pairwise fun a b => a.stop ≤ b.start
  isComment : ∀ span ∈ found, IsComment text span
  complete : ∀ place, OpensAt text place →
    ∃ span ∈ found, span.start ≤ place ∧ place < span.stop

theorem areComments_spans (text : List Char) : AreComments text (spans text) := by
  have hread : Reading 0 text (spans text) := reading_spansFrom text 0
  have hcomment : ∀ span ∈ spans text, IsComment text span := hread.isComment [] rfl
  have hpositive : ∀ span ∈ spans text, span.start < span.stop := fun span hs =>
    (hcomment span hs).start_lt_stop
  refine ⟨hpositive, fun span hs => spans_inText hs, ?_, hread.apart, hcomment,
    fun place => hread.complete [] rfl place (Nat.zero_le place)⟩
  exact hread.apart.imp_of_mem fun {a b} ha _ hab => (hpositive a ha).trans_le hab

/-- Two rows of spans are the same if each span begins inside one of the other row, and no
two of them begin at one place. -/
theorem eq_of_begin_inside {first second : List Span}
    (h : first.Pairwise fun a b => a.start < b.start ∧ a.stop ≤ b.start)
    (h' : second.Pairwise fun a b => a.start < b.start ∧ a.stop ≤ b.start)
    (hsame : ∀ a ∈ first, ∀ b ∈ second, a.start = b.start → a = b)
    (hfirst : ∀ a ∈ first, ∃ b ∈ second, b.start ≤ a.start ∧ a.start < b.stop)
    (hsecond : ∀ b ∈ second, ∃ a ∈ first, a.start ≤ b.start ∧ b.start < a.stop) :
    first = second := by
  induction first generalizing second with
  | nil =>
    cases second with
    | nil => rfl
    | cons b second =>
      obtain ⟨a, ha, -⟩ := hsecond b List.mem_cons_self
      cases ha
  | cons a first ih =>
    cases second with
    | nil =>
      obtain ⟨b, hb, -⟩ := hfirst a List.mem_cons_self
      cases hb
    | cons b second =>
      obtain ⟨hlater, htail⟩ := List.pairwise_cons.1 h
      obtain ⟨hlater', htail'⟩ := List.pairwise_cons.1 h'
      -- Neither of the first spans begins before the other.
      have heq : a = b := by
        refine hsame a List.mem_cons_self b List.mem_cons_self (Nat.le_antisymm ?_ ?_)
        · obtain ⟨a', ha', hle, -⟩ := hsecond b List.mem_cons_self
          rcases List.mem_cons.1 ha' with rfl | ha'
          · exact hle
          · exact (hlater a' ha').1.le.trans hle
        · obtain ⟨b', hb', hle, -⟩ := hfirst a List.mem_cons_self
          rcases List.mem_cons.1 hb' with rfl | hb'
          · exact hle
          · exact (hlater' b' hb').1.le.trans hle
      subst heq
      have hrest : ∀ {x : Span} {others : List Span}, a.stop ≤ x.start →
          (∃ y ∈ a :: others, y.start ≤ x.start ∧ x.start < y.stop) →
          ∃ y ∈ others, y.start ≤ x.start ∧ x.start < y.stop := by
        rintro x others hle ⟨y, hy, hin⟩
        rcases List.mem_cons.1 hy with rfl | hy
        · exact absurd hin.2 (Nat.not_lt.2 hle)
        · exact ⟨y, hy, hin⟩
      rw [ih htail htail'
        (fun x hx y hy => hsame x (List.mem_cons_of_mem _ hx) y (List.mem_cons_of_mem _ hy))
        (fun x hx => hrest (hlater x hx).2 (hfirst x (List.mem_cons_of_mem _ hx)))
        (fun y hy => hrest (hlater' y hy).2 (hsecond y (List.mem_cons_of_mem _ hy)))]

/-- **The comments of a text are found exactly.**  The spans that `spans` gives are the comments
of the text, and nothing else is. -/
theorem areComments_iff {text : List Char} {found : List Span} :
    AreComments text found ↔ found = spans text := by
  refine ⟨fun h => ?_, fun h => h ▸ areComments_spans text⟩
  have hspans := areComments_spans text
  exact eq_of_begin_inside (h.increasing.and h.disjoint) (hspans.increasing.and hspans.disjoint)
    (fun a ha b hb => (h.isComment a ha).eq_of_start_eq (hspans.isComment b hb))
    (fun a ha => hspans.complete a.start (h.isComment a ha).opensAt)
    (fun b hb => h.complete b.start (hspans.isComment b hb).opensAt)

/-- An opener does not close itself, and a closer may end a comment that has other openers. -/
example : spans "/*/<!-- */ //a".toList = [⟨0, 10⟩, ⟨11, 14⟩] := by decide +kernel

end StyleTokens.Comment

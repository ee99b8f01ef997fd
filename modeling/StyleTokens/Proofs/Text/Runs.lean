/-
White space in a text and around it.

What is trimmed off a text is white space only, and white space that is put around the text
is trimmed off with it.  In between, a text is cut into runs wherever white space meets other
characters.  No other way of cutting has runs that are uniform and could not be longer.  An item is
a stretch without white space that could not be longer: the items of a text are those of its runs
that are not white space, in their order.

* `exists_trim` — a text is what is left of it, with white space around it;
* `trim_surround` — white space around a text is trimmed off with its own;
* `trim_append_of_solid` — behind a text without white space only the rest is trimmed;
* `trim_of_suffix` — of what a trimmed text ends with only the front is trimmed;
* `span_append` — where a stretch of one kind of characters ends;
* `runs_append` — the runs of a text that is cut between two runs;
* `AreRuns`, `areRuns_iff` — what makes pieces of a text its runs, and that they are what `runs`
  gives;
* `isBlank_of_mem_runs` — a run is white space throughout or free of it;
* `IsItem`, `isItem_iff` — each item is one of the runs, at its place among them, and each run that
  is not white space is an item.
-/
import Mathlib.Data.List.DropRight
import Mathlib.Tactic
import StyleTokens.Text.Blank

namespace StyleTokens.Text

variable {text front back : List Char}

/-- The visible ASCII characters are no white space. -/
theorem isBlank_of_visible {c : Char} (hlow : 0x21 ≤ c.toNat) (hhigh : c.toNat ≤ 0x7E) :
    isBlank c = false := by
  simp only [isBlank, Bool.or_eq_false_iff, Bool.and_eq_false_iff, decide_eq_false_iff_not,
    beq_eq_false_iff_ne]
  omega

theorem trimRight_eq (text : List Char) : trimRight text = text.rdropWhile isBlank := rfl

/-- Text without outer white space has none to lose. -/
theorem trim_trim (text : List Char) : trim (trim text) = trim text := by
  have hhead : trimLeft (trim text) = trim text := by
    refine List.dropWhile_eq_self_iff.2 fun hpos => ?_
    have htrim : trim text <+: trimLeft text := by
      rw [trim, trimRight_eq]
      exact List.rdropWhile_prefix _ _
    have hlt := hpos.trans_le htrim.length_le
    rw [htrim.getElem hpos]
    exact List.dropWhile_get_zero_not _ _ hlt
  rw [trim, hhead, trim, trimRight_eq, trimRight_eq, List.rdropWhile_idempotent]

/-- A text is what is left of it when it is trimmed, with white space around it. -/
theorem exists_trim (text : List Char) : ∃ front back,
    text = front ++ (trim text ++ back) ∧ allBlank front = true ∧ allBlank back = true := by
  refine ⟨text.takeWhile isBlank, (trimLeft text).rtakeWhile isBlank, ?_, ?_, ?_⟩
  · rw [trim, trimRight_eq, List.rdropWhile_append_rtakeWhile]
    exact List.takeWhile_append_dropWhile.symm
  · exact List.all_eq_true.2 fun c hc => List.mem_takeWhile_imp hc
  · exact List.all_eq_true.2 fun c hc => List.mem_rtakeWhile_imp hc

theorem trimLeft_append_of_blank (h : allBlank front = true) (text : List Char) :
    trimLeft (front ++ text) = trimLeft text :=
  List.dropWhile_append_of_pos (List.all_eq_true.1 h)

theorem trimRight_append_of_blank (text : List Char) (h : allBlank back = true) :
    trimRight (text ++ back) = trimRight text := by
  rw [trimRight, List.reverse_append, List.dropWhile_append_of_pos, trimRight]
  exact fun c hc => List.all_eq_true.1 h c (List.mem_reverse.1 hc)

/-- **White space around a text is trimmed off with its own.** -/
theorem trim_surround (hfront : allBlank front = true) (text : List Char)
    (hback : allBlank back = true) : trim (front ++ (text ++ back)) = trim text := by
  rw [trim, trimLeft_append_of_blank hfront, trim, trimLeft, List.dropWhile_append]
  split
  · next hnone =>
    -- nothing is left of the text, so nothing is left of what is behind it
    have hnil : back.dropWhile isBlank = [] :=
      List.dropWhile_eq_nil_iff.2 (List.all_eq_true.1 hback)
    rw [hnil, trimLeft, List.isEmpty_iff.1 hnone]
  · exact trimRight_append_of_blank _ hback

/-- Nothing is trimmed off a text without white space, and behind it only the rest is
trimmed. -/
theorem trim_append_of_solid (hne : text ≠ []) (h : ∀ c ∈ text, isBlank c = false)
    (rest : List Char) : trim (text ++ rest) = text ++ trimRight rest := by
  have hleft : trimLeft (text ++ rest) = text ++ rest := by
    obtain ⟨c, tail, rfl⟩ := List.exists_cons_of_ne_nil hne
    exact List.dropWhile_cons_of_neg (by simp [h c List.mem_cons_self])
  have hright : trimRight text = text :=
    List.rdropWhile_eq_self_iff.2 fun hl => by simp [h _ (List.getLast_mem hl)]
  rw [trim, hleft, trimRight, List.reverse_append, List.dropWhile_append]
  split
  · next hnone =>
    rw [← trimRight, hright, trimRight, List.isEmpty_iff.1 hnone, List.reverse_nil,
      List.append_nil]
  · rw [List.reverse_append, List.reverse_reverse, trimRight]

theorem mem_of_mem_trimRight {c : Char} (h : c ∈ trimRight text) : c ∈ text :=
  (List.rdropWhile_prefix _ _).subset h

/-- What a trimmed text ends with has no white space behind it. -/
theorem trimRight_of_suffix {rest : List Char} (h : rest <:+ trim text) :
    trimRight rest = rest := by
  refine List.rdropWhile_eq_self_iff.2 fun hne => ?_
  rw [h.getLast hne]
  exact List.rdropWhile_last_not _ _ _

/-- So only white space in front of it is trimmed. -/
theorem trim_of_suffix {rest : List Char} (h : rest <:+ trim text) : trim rest = trimLeft rest :=
  trimRight_of_suffix ((List.dropWhile_suffix _).trans h)

/-- A stretch of one kind ends with the text, or where a character of another kind comes. -/
theorem span_append {p : Char → Bool} {rest : List Char} (htext : ∀ c ∈ text, p c = true)
    (hrest : ∀ c, rest.head? = some c → p c = false) :
    (text ++ rest).takeWhile p = text ∧ (text ++ rest).dropWhile p = rest := by
  have hstop : rest.takeWhile p = [] ∧ rest.dropWhile p = rest := by
    cases rest with
    | nil => exact ⟨rfl, rfl⟩
    | cons c rest =>
      have hc := hrest c rfl
      exact ⟨List.takeWhile_cons_of_neg (by simp [hc]), List.dropWhile_cons_of_neg (by simp [hc])⟩
  rw [List.takeWhile_append_of_pos htext, List.dropWhile_append_of_pos htext, hstop.1, hstop.2,
    List.append_nil]
  exact ⟨rfl, rfl⟩

/-! ### Runs -/

theorem runs_cons {d : Char} {rest run : List Char} {others : List (List Char)}
    (h : runs rest = (d :: run) :: others) (c : Char) :
    runs (c :: rest) = if isBlank c == isBlank d then (c :: d :: run) :: others
      else [c] :: (d :: run) :: others := by
  rw [runs, h]

theorem exists_runs_cons (c : Char) (rest : List Char) :
    ∃ run others, runs (c :: rest) = (c :: run) :: others := by
  rw [runs]
  split
  · split
    · exact ⟨_, _, rfl⟩
    · exact ⟨_, _, rfl⟩
  · exact ⟨_, _, rfl⟩

/-- A text may be cut between white space and other characters. -/
theorem runs_append {c e : Char} (h : isBlank e ≠ isBlank c) (rest : List Char) :
    ∀ u : List Char, runs (u ++ e :: c :: rest) = runs (u ++ [e]) ++ runs (c :: rest) := by
  intro u
  induction u with
  | nil =>
    obtain ⟨run, others, hruns⟩ := exists_runs_cons c rest
    have hsingle : runs [e] = [[e]] := rfl
    rw [List.nil_append, List.nil_append, hsingle, runs_cons hruns, hruns, if_neg (by simpa using h)]
    rfl
  | cons d u ih =>
    obtain ⟨b, run, others, hruns⟩ : ∃ b run others, runs (u ++ [e]) = (b :: run) :: others := by
      cases u with
      | nil => exact ⟨_, _, _, rfl⟩
      | cons b u =>
        obtain ⟨_, _, hb⟩ := exists_runs_cons b (u ++ [e])
        exact ⟨_, _, _, hb⟩
    rw [List.cons_append, List.cons_append, runs_cons hruns, runs_cons (by rw [ih, hruns]; rfl)]
    split <;> rfl

/-- A text that is white space throughout, or free of it, is one run. -/
theorem runs_of_forall {b : Bool} : ∀ {text : List Char}, text ≠ [] →
    (∀ c ∈ text, isBlank c = b) → runs text = [text]
  | [], h, _ => absurd rfl h
  | [c], _, _ => rfl
  | c :: d :: rest, _, h => by
    have hrest := runs_of_forall (List.cons_ne_nil d rest)
      fun e he => h e (List.mem_cons_of_mem _ he)
    rw [runs_cons hrest, if_pos (by rw [h c (by simp), h d (by simp)]; simp)]

/-- The pieces make up a text, each of them is white space throughout or free of it, and
none could be longer. -/
structure AreRuns (text : List Char) (pieces : List (List Char)) : Prop where
  flatten_eq : pieces.flatten = text
  ne_nil : ∀ piece ∈ pieces, piece ≠ []
  uniform : ∀ piece ∈ pieces, ∀ c ∈ piece, isBlank c = allBlank piece
  alternate : pieces.IsChain fun a b => allBlank a ≠ allBlank b

theorem areRuns_runs (text : List Char) : AreRuns text (runs text) := by
  induction text with
  | nil => exact ⟨rfl, by simp [runs], by simp [runs], .nil⟩
  | cons c rest ih =>
    cases rest with
    | nil => exact ⟨rfl, by simp [runs], by simp [runs, allBlank], .singleton _⟩
    | cons d rest =>
      obtain ⟨run, others, hruns⟩ := exists_runs_cons d rest
      rw [hruns] at ih
      rw [runs_cons hruns c]
      have hd : isBlank d = allBlank (d :: run) :=
        ih.uniform _ List.mem_cons_self d List.mem_cons_self
      have hothers : ∀ piece ∈ others, piece ≠ [] ∧ ∀ e ∈ piece, isBlank e = allBlank piece :=
        fun piece hp => ⟨ih.ne_nil piece (List.mem_cons_of_mem _ hp),
          ih.uniform piece (List.mem_cons_of_mem _ hp)⟩
      split
      · next heq =>
        -- The first character makes the first run longer.
        have hc : isBlank c = allBlank (d :: run) := (beq_iff_eq.1 heq).trans hd
        have hall : allBlank (c :: d :: run) = allBlank (d :: run) := by
          rw [allBlank, List.all_cons, ← allBlank, hc, Bool.and_self]
        refine ⟨by simpa using ih.flatten_eq, ?_, ?_, ?_⟩
        · rw [List.forall_mem_cons]
          exact ⟨List.cons_ne_nil _ _, fun piece hp => (hothers piece hp).1⟩
        · rw [List.forall_mem_cons]
          refine ⟨?_, fun piece hp => (hothers piece hp).2⟩
          rw [List.forall_mem_cons, hall]
          exact ⟨hc, ih.uniform _ List.mem_cons_self⟩
        · have := ih.alternate
          rw [List.isChain_cons] at this ⊢
          rwa [hall]
      · next hne =>
        -- The first character is a run of its own.
        have hc : allBlank [c] = isBlank c := by simp [allBlank]
        refine ⟨by simpa using ih.flatten_eq, ?_, ?_, ?_⟩
        · rw [List.forall_mem_cons]
          exact ⟨List.cons_ne_nil _ _, ih.ne_nil⟩
        · rw [List.forall_mem_cons]
          exact ⟨by simp [hc], ih.uniform⟩
        · refine List.isChain_cons_cons.2 ⟨?_, ih.alternate⟩
          rw [hc, ← hd]
          simpa using hne

/-- A text is cut into its runs in one way only. -/
theorem areRuns_iff {text : List Char} {pieces : List (List Char)} :
    AreRuns text pieces ↔ pieces = runs text := by
  refine ⟨fun h => ?_, fun h => h ▸ areRuns_runs text⟩
  induction pieces generalizing text with
  | nil =>
    rw [← h.flatten_eq]
    rfl
  | cons piece pieces ih =>
    obtain ⟨hne, hnes⟩ := List.forall_mem_cons.1 h.ne_nil
    obtain ⟨huniform, huniforms⟩ := List.forall_mem_cons.1 h.uniform
    have hrest := ih ⟨rfl, hnes, huniforms, h.alternate.tail⟩
    have hpiece : runs piece = [piece] := runs_of_forall hne huniform
    cases pieces with
    | nil => rw [← h.flatten_eq, List.flatten_cons, List.flatten_nil, List.append_nil, hpiece]
    | cons next pieces =>
      obtain ⟨c, next, rfl⟩ := List.exists_cons_of_ne_nil (hnes next List.mem_cons_self)
      have hlast := List.dropLast_concat_getLast hne
      have hmeet : isBlank (piece.getLast hne) ≠ isBlank c := by
        rw [huniform _ (List.getLast_mem hne), huniforms _ List.mem_cons_self c List.mem_cons_self]
        exact (List.isChain_cons_cons.1 h.alternate).1
      rw [← h.flatten_eq, List.flatten_cons, ← hlast, List.append_assoc, List.singleton_append,
        List.flatten_cons, List.cons_append, runs_append hmeet, hlast, hpiece, ← List.cons_append,
        ← List.flatten_cons, ← hrest, List.singleton_append]

/-- A run is white space throughout or free of it. -/
theorem isBlank_of_mem_runs {text run : List Char} (h : run ∈ runs text) :
    ∃ b, ∀ c ∈ run, isBlank c = b :=
  ⟨allBlank run, (areRuns_runs text).uniform run h⟩

/-! ### Items -/

variable {before item after : List Char}

/-- A stretch that is free of white space, with white space or an end of the text on either
side. -/
structure IsItem (before item after : List Char) : Prop where
  ne_nil : item ≠ []
  solid : ∀ c ∈ item, isBlank c = false
  left : ∀ c, before.getLast? = some c → isBlank c = true
  right : ∀ c, after.head? = some c → isBlank c = true

/-- A text may be cut where white space meets other characters, and at its ends. -/
theorem runs_append_of_meet {text rest : List Char} (h : ∀ e c, text.getLast? = some e →
    rest.head? = some c → isBlank e ≠ isBlank c) : runs (text ++ rest) = runs text ++ runs rest := by
  cases rest with
  | nil => rw [List.append_nil, runs, List.append_nil]
  | cons c rest =>
    rcases List.eq_nil_or_concat text with rfl | ⟨u, e, rfl⟩
    · rfl
    · rw [List.concat_eq_append, List.append_assoc, List.singleton_append]
      exact runs_append (h e c (by simp) rfl) rest u

/-- **An item is a run of its text**, between the runs of what stands before it and those of
what stands behind it. -/
theorem IsItem.runs_eq (h : IsItem before item after) :
    runs (before ++ (item ++ after)) = runs before ++ item :: runs after := by
  have hsolid : ∀ c, item.head? = some c ∨ item.getLast? = some c → isBlank c = false := by
    rintro c (hc | hc)
    · exact h.solid c (List.mem_of_mem_head? hc)
    · exact h.solid c (List.mem_of_getLast? hc)
  have hafter : runs (item ++ after) = item :: runs after := by
    rw [runs_append_of_meet fun e c he hc => by rw [hsolid e (Or.inr he), h.right c hc]; simp,
      runs_of_forall h.ne_nil h.solid, List.singleton_append]
  rw [← hafter]
  refine runs_append_of_meet fun e c he hc => ?_
  have hitem : item.head? = some c := by
    rwa [List.head?_append_of_ne_nil _ h.ne_nil] at hc
  rw [h.left e he, hsolid c (Or.inl hitem)]
  simp

/-- A run that is not white space meets white space on either side. -/
theorem AreRuns.isItem {text : List Char} {first rest : List (List Char)}
    (h : AreRuns text (first ++ item :: rest)) (hsolid : allBlank item = false) :
    IsItem first.flatten item rest.flatten := by
  obtain ⟨-, hchain, hmeet⟩ := List.isChain_append.1 h.alternate
  have hblank : ∀ piece ∈ first ++ item :: rest, allBlank piece ≠ allBlank item →
      ∀ c ∈ piece, isBlank c = true := by
    intro piece hp hother c hc
    rw [h.uniform piece hp c hc]
    simpa [hsolid] using hother
  refine ⟨h.ne_nil item (by simp), fun c hc => ?_, fun c hc => ?_, fun c hc => ?_⟩
  · rw [h.uniform item (by simp) c hc, hsolid]
  · rcases List.eq_nil_or_concat first with rfl | ⟨front, piece, rfl⟩
    · cases hc
    · -- what stands before the item ends with the last run before it
      have hpiece : piece ∈ front.concat piece ++ item :: rest := by simp
      have hmem : c ∈ piece := by
        rw [List.concat_eq_append, List.flatten_append, List.flatten_singleton,
          List.getLast?_append_of_ne_nil _ (h.ne_nil piece hpiece)] at hc
        exact List.mem_of_getLast? hc
      exact hblank piece hpiece (hmeet piece (by simp) item (by simp)) c hmem
  · cases rest with
    | nil => cases hc
    | cons piece rest =>
      -- and what stands behind it begins with the first run behind it
      have hpiece : piece ∈ first ++ item :: piece :: rest := by simp
      have hmem : c ∈ piece := by
        rw [List.flatten_cons, List.head?_append_of_ne_nil _ (h.ne_nil piece hpiece)] at hc
        exact List.mem_of_mem_head? hc
      exact hblank piece hpiece (List.isChain_cons_cons.1 hchain).1.symm c hmem

/-- **The items of a text are its runs that are not white space**, in order: what stands before
an item is made up of the runs before it, and what stands behind it of those behind it. -/
theorem isItem_iff (before item after : List Char) : IsItem before item after ↔
    ∃ first rest, runs (before ++ (item ++ after)) = first ++ item :: rest ∧
      allBlank item = false ∧ first.flatten = before ∧ rest.flatten = after := by
  constructor
  · intro h
    refine ⟨runs before, runs after, h.runs_eq, ?_, flatten_runs before, flatten_runs after⟩
    obtain ⟨c, tail, rfl⟩ := List.exists_cons_of_ne_nil h.ne_nil
    simp [allBlank, h.solid c List.mem_cons_self]
  · rintro ⟨first, rest, hruns, hsolid, rfl, rfl⟩
    exact AreRuns.isItem (hruns ▸ areRuns_runs _) hsolid

end StyleTokens.Text

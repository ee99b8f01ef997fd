/-
Where the matches of a search lie.

Whatever a pattern looks like, its matches in a text follow one another without
overlap, and each capture lies inside its match.  All offsets are character
boundaries of the text.

* `Thread.Placed` — the invariant of a thread: what it has recorded and what it
  may still record lies between its start and the place that the search is at;
* `settle_placed`, `advance_placed` — a search keeps it;
* `occurrences_placed`, `occurrences_apart` — the matches of a search.

Design notes: nothing is assumed of the program, so the labels play no part and
a search that runs out of fuel is covered as well.
-/
import Mathlib.Tactic
import StyleTokens.Pattern.Search
import StyleTokens.Proofs.Text.Boundary

namespace StyleTokens

open Text

/-- A match of a text that starts at `low` or later and ends at `high` or
earlier, with its captures inside it. -/
structure Match.Placed (text : List Char) (low high : Nat) (found : Match) : Prop where
  low_le : low ≤ found.span.start
  stop_le : found.span.stop ≤ high
  inText : found.span.InText text
  captures : ∀ name span, (name, span) ∈ found.captures →
    found.span.start ≤ span.start ∧ span.stop ≤ found.span.stop ∧ span.InText text

/-- A thread at `offset`, begun at `low` or later, all records of which lie
between its start and this place. -/
structure Thread.Placed (text : List Char) (low offset : Nat) (thread : Thread) : Prop where
  low_le : low ≤ thread.start
  start_le : thread.start ≤ offset
  boundary : IsBoundary text thread.start
  captures : ∀ name span, (name, span) ∈ thread.captures →
    thread.start ≤ span.start ∧ span.stop ≤ offset ∧ span.InText text
  open_groups : ∀ name start, Goal.close name start ∈ thread.goals →
    thread.start ≤ start ∧ start ≤ offset ∧ IsBoundary text start

namespace Thread.Placed

variable {text : List Char} {low offset : Nat} {thread : Thread}

theorem withGoals (h : thread.Placed text low offset) {goals : List Goal}
    (hg : ∀ name start, Goal.close name start ∈ goals →
      Goal.close name start ∈ thread.goals ∨ start = offset)
    (hb : IsBoundary text offset) : (thread.withGoals goals).Placed text low offset := by
  refine ⟨h.low_le, h.start_le, h.boundary, h.captures, fun name start hm => ?_⟩
  rcases hg name start hm with hold | rfl
  · exact h.open_groups name start hold
  · exact ⟨h.start_le, le_rfl, hb⟩

theorem later (h : thread.Placed text low offset) {further : Nat} (hle : offset ≤ further) :
    thread.Placed text low further := by
  refine ⟨h.low_le, h.start_le.trans hle, h.boundary, fun name span hm => ?_,
    fun name start hm => ?_⟩
  · obtain ⟨h1, h2, h3⟩ := h.captures name span hm
    exact ⟨h1, h2.trans hle, h3⟩
  · obtain ⟨h1, h2, h3⟩ := h.open_groups name start hm
    exact ⟨h1, h2.trans hle, h3⟩

theorem begin (program : Program) (hlow : low ≤ offset) (hb : IsBoundary text offset) :
    (Thread.begin program offset).Placed text low offset := by
  refine ⟨hlow, le_rfl, hb, ?_, ?_⟩ <;> simp [Thread.begin]

/-- Closing a group records a span inside the thread. -/
theorem close (h : thread.Placed text low offset) {name : String} {start : Nat}
    {goals : List Goal} (hg : thread.goals = .close name start :: goals)
    (hb : IsBoundary text offset) :
    ((thread.withGoals goals).record name ⟨start, offset⟩).Placed text low offset := by
  obtain ⟨h1, h2, h3⟩ := h.open_groups name start (by simp [hg])
  have hw : (thread.withGoals goals).Placed text low offset :=
    h.withGoals (fun _ _ hm => Or.inl (by simp [hg, hm])) hb
  refine ⟨hw.low_le, hw.start_le, hw.boundary, fun other span hm => ?_, hw.open_groups⟩
  rcases List.mem_cons.1 hm with heq | hm
  · cases heq
    exact ⟨h1, le_rfl, h3, hb, h2⟩
  · exact hw.captures other span hm

/-- A thread that is done has found a match. -/
theorem done (h : thread.Placed text low offset) (hb : IsBoundary text offset) :
    Match.Placed text low offset ⟨⟨thread.start, offset⟩, thread.captures⟩ :=
  ⟨h.low_le, le_rfl, ⟨h.boundary, hb, h.start_le⟩, h.captures⟩

end Thread.Placed

/-- Settling keeps the invariant. -/
theorem settle_placed {text : List Char} {low offset : Nat} (before after : Option Char)
    (hb : IsBoundary text offset) :
    ∀ (fuel : Nat) (passed : Std.HashSet Nat) (waiting threads : List Thread),
      (∀ thread ∈ waiting, thread.Placed text low offset) →
      (∀ thread ∈ threads, thread.Placed text low offset) →
      (∀ thread ∈ (settle before after offset fuel passed waiting threads).1,
        thread.Placed text low offset) ∧
      ∀ found ∈ (settle before after offset fuel passed waiting threads).2,
        found.Placed text low offset := by
  intro fuel
  induction fuel with
  | zero =>
    intro passed waiting threads hw _
    simpa [settle] using hw
  | succ fuel ih =>
    intro passed waiting threads hw ht
    rcases threads with _ | ⟨thread, others⟩
    · simpa [settle] using hw
    have hh := ht thread List.mem_cons_self
    have ho : ∀ thread ∈ others, thread.Placed text low offset :=
      fun other hm => ht other (List.mem_cons_of_mem _ hm)
    -- Each step replaces the first thread by some of the places it can go to.
    have step : ∀ (passed : Std.HashSet Nat) (next : List Thread),
        (∀ thread ∈ next, thread.Placed text low offset) →
        (∀ thread ∈ (settle before after offset fuel passed waiting (next ++ others)).1,
          thread.Placed text low offset) ∧
        ∀ found ∈ (settle before after offset fuel passed waiting (next ++ others)).2,
          found.Placed text low offset := by
      intro passed next hn
      refine ih passed waiting _ hw fun other hm => ?_
      rcases List.mem_append.1 hm with hm | hm
      · exact hn other hm
      · exact ho other hm
    have go : ∀ {goals : List Goal}, (∀ name start, Goal.close name start ∈ goals →
        Goal.close name start ∈ thread.goals ∨ start = offset) →
        (thread.withGoals goals).Placed text low offset := fun hg => hh.withGoals hg hb
    rw [settle]
    split
    · next hg =>
      refine ⟨by simpa using hw, ?_⟩
      simpa using hh.done hb
    · next name start goals hg =>
      exact step passed [_] (by simpa using hh.close hg hb)
    · next node goals hg =>
      have rest : ∀ name start, Goal.close name start ∈ goals →
          Goal.close name start ∈ thread.goals ∨ start = offset :=
        fun name start hm => Or.inl (by simp [hg, hm])
      have nodes : ∀ (nodes : List Node) (name : String) (start : Nat),
          Goal.close name start ∈ nodes.map Goal.run ++ goals →
          Goal.close name start ∈ thread.goals ∨ start = offset := by
        intro nodes name start hm
        exact rest name start (by simpa using hm)
      split
      · exact step passed [_] (by simpa using go rest)
      · refine ih passed _ others (fun other hm => ?_) ho
        rcases List.mem_cons.1 hm with rfl | hm
        · exact hh
        · exact hw other hm
      · next condition =>
        by_cases hc : condition.holds before after
        · rw [if_pos hc]
          exact step passed [_] (by simpa using go rest)
        · rw [if_neg hc]
          exact step passed [] (by simp)
      · next name body =>
        refine step passed [_] ?_
        rw [List.forall_mem_singleton]
        refine go fun other start hm => ?_
        simp only [List.mem_cons, reduceCtorEq, Goal.close.injEq, false_or] at hm
        rcases hm with ⟨-, rfl⟩ | hm
        · exact Or.inr rfl
        · exact rest other start hm
      · next a b =>
        exact step passed [_] (by simpa using go (nodes [a, b]))
      · next label a b =>
        split
        · exact step passed [] (by simp)
        · refine step _ [_, _] ?_
          simpa using ⟨go (nodes [a]), go (nodes [b])⟩
      · next label greedy body =>
        split
        · exact step passed [] (by simp)
        · have stay := go (nodes [body, .again label greedy body])
          have leave := go rest
          cases greedy
          · exact step _ [_, _] (by simpa using ⟨leave, stay⟩)
          · exact step _ [_, _] (by simpa using ⟨stay, leave⟩)
      · next label greedy body =>
        exact step passed [_] (by simpa using go (nodes [body, .again label greedy body]))

namespace Program

variable {text : List Char} {low offset : Nat}

theorem atPlace_placed (program : Program) {found : Option Match} {threads : List Thread}
    (before after : Option Char) (hlow : low ≤ offset) (hb : IsBoundary text offset)
    (hf : ∀ m ∈ found, m.Placed text low offset)
    (ht : ∀ thread ∈ threads, thread.Placed text low offset) :
    (∀ thread ∈ (program.atPlace found threads before after offset).1,
      thread.Placed text low offset) ∧
    ∀ m ∈ (program.atPlace found threads before after offset).2, m.Placed text low offset := by
  have hall : ∀ thread ∈ (if found.isNone then threads ++ [Thread.begin program offset]
      else threads), thread.Placed text low offset := by
    intro thread hm
    split at hm
    · rcases List.mem_append.1 hm with hm | hm
      · exact ht thread hm
      · rw [List.mem_singleton.1 hm]
        exact Thread.Placed.begin program hlow hb
    · exact ht thread hm
  obtain ⟨hw, hd⟩ := settle_placed before after hb
    (program.effort (if found.isNone then threads ++ [Thread.begin program offset]
      else threads).length) ∅ [] _ (by simp) hall
  refine ⟨hw, fun m hm => ?_⟩
  rcases (Option.orElse_eq_some _ _ _).1 hm with hm | ⟨-, hm⟩
  · exact hd m hm
  · exact hf m hm

/-- A search finds a match that lies between the place where it began and the end
of the text. -/
theorem advance_placed (program : Program) {before : Option Char} {rest : List Char} :
    ∀ {a : List Char} {found : Option Match} {threads : List Thread}, text = a ++ rest →
      low ≤ byteLength a → (∀ m ∈ found, m.Placed text low (byteLength a)) →
      (∀ thread ∈ threads, thread.Placed text low (byteLength a)) →
      ∀ m ∈ program.advance found threads before (byteLength a) rest,
        m.Placed text low (byteLength text) := by
  induction rest generalizing before with
  | nil =>
    intro a found threads htext hlow hf ht m hm
    subst htext
    rw [advance] at hm
    have := (program.atPlace_placed before none hlow (isBoundary_append a []) hf ht).2 m hm
    simpa using this
  | cons c rest ih =>
    intro a found threads htext hlow hf ht m hm
    have hb : IsBoundary text (byteLength a) := htext ▸ isBoundary_append a (c :: rest)
    have hsnoc : byteLength (a ++ [c]) = byteLength a + c.utf8Size := by simp [byteLength]
    have hmono : ∀ m : Match, m.Placed text low (byteLength a) →
        m.Placed text low (byteLength (a ++ [c])) := fun m h =>
      ⟨h.low_le, by have := h.stop_le; omega, h.inText, h.captures⟩
    obtain ⟨hw, hd⟩ := program.atPlace_placed before (some c) hlow hb hf ht
    rw [advance] at hm
    split at hm
    · next found' heq =>
      rw [heq] at hd
      obtain rfl : found' = m := by simpa using hm
      have := hd found' rfl
      exact ⟨this.low_le, this.stop_le.trans hb.le, this.inText, this.captures⟩
    · next waiting found' heq =>
      rw [heq] at hw hd
      rw [← hsnoc] at hm
      refine ih (by simp [htext]) (by omega) (fun m hm => hmono m (hd m hm)) ?_ m hm
      intro thread hmem
      obtain ⟨old, hold, hcons⟩ := List.mem_filterMap.1 hmem
      rw [Thread.consume?] at hcons
      split at hcons
      · next set goals hg =>
        split at hcons
        · obtain rfl := Option.some.inj hcons
          refine ((hw old hold).withGoals (fun name start hm => Or.inl ?_) hb).later (by omega)
          simp [hg, hm]
        · simp at hcons
      · simp at hcons

end Program

/-- A place in a text. -/
def Cursor.InText (place : Cursor) (text : List Char) : Prop :=
  ∃ a, text = a ++ place.rest ∧ byteLength a = place.offset

namespace Cursor

variable {text : List Char}

theorem inText_start (text : List Char) : (Cursor.start text).InText text :=
  ⟨[], rfl, rfl⟩

theorem InText.next {place next : Cursor} (h : place.InText text) (hn : place.next? = some next) :
    next.InText text := by
  obtain ⟨a, ha, ho⟩ := h
  rw [Cursor.next?] at hn
  split at hn
  · simp at hn
  · next c rest hr =>
    obtain rfl := Option.some.inj hn
    exact ⟨a ++ [c], by simp [ha, hr], by simp [byteLength, ho]⟩

theorem skipIn_append (before : Option Char) (offset : Nat) (m b : List Char) :
    (skipIn before offset (byteLength m) (m ++ b)).offset = offset + byteLength m ∧
      (skipIn before offset (byteLength m) (m ++ b)).rest = b := by
  induction m generalizing before offset with
  | nil => cases b <;> simp [skipIn]
  | cons c m ih =>
    have hc := c.utf8Size_pos
    rw [byteLength, List.cons_append, skipIn, if_neg (by omega), Nat.add_sub_cancel_left]
    obtain ⟨h1, h2⟩ := ih (some c) (offset + c.utf8Size)
    exact ⟨by rw [h1]; omega, h2⟩

/-- Skipping to a later boundary of the text leads there. -/
theorem InText.skip {place : Cursor} (h : place.InText text) {offset : Nat}
    (hb : IsBoundary text offset) (hle : place.offset ≤ offset) :
    (place.skip (offset - place.offset)).InText text ∧
      (place.skip (offset - place.offset)).offset = offset := by
  obtain ⟨a, ha, ho⟩ := h
  obtain ⟨c, d, hc, hd⟩ := hb
  obtain ⟨m, rfl, hr⟩ := append_eq_append_of_le (ha.symm.trans hc) (by omega)
  rw [byteLength_append] at hd
  have hm : offset - place.offset = byteLength m := by omega
  obtain ⟨h1, h2⟩ := skipIn_append place.before place.offset m d
  rw [hm, Cursor.skip, hr]
  exact ⟨⟨a ++ m, by rw [h2, ← hc], by rw [h1]; simp [ho]⟩, by rw [h1]; omega⟩

end Cursor

namespace Program

variable {text : List Char}

theorem find?_placed (program : Program) {place : Cursor} (h : place.InText text) {found : Match}
    (hf : program.find? place = some found) :
    found.Placed text place.offset (byteLength text) := by
  obtain ⟨a, ha, ho⟩ := h
  rw [find?, ← ho] at hf
  rw [← ho]
  exact advance_placed program ha le_rfl (by simp) (by simp) found hf

/-- The matches from a place on lie in the text and follow one another. -/
theorem occurrencesFrom_placed (program : Program) (fuel : Nat) :
    ∀ (last : Option Nat) {place : Cursor}, place.InText text →
      (∀ found ∈ program.occurrencesFrom fuel last place,
        found.Placed text place.offset (byteLength text)) ∧
      (program.occurrencesFrom fuel last place).Pairwise fun a b => a.span.stop ≤ b.span.start := by
  induction fuel with
  | zero =>
    intro last place _
    simp [occurrencesFrom]
  | succ fuel ih =>
    intro last place hp
    rw [occurrencesFrom]
    split
    · simp
    · next found hf =>
      have hplaced := program.find?_placed hp hf
      split
      · split
        · simp
        · next next hn =>
          obtain ⟨h1, h2⟩ := ih last (hp.next hn)
          have hle : place.offset ≤ next.offset := by
            rw [Cursor.next?] at hn
            split at hn
            · simp at hn
            · obtain rfl := Option.some.inj hn
              exact Nat.le_add_right _ _
          refine ⟨fun m hm => ?_, h2⟩
          have := h1 m hm
          exact ⟨hle.trans this.low_le, this.stop_le, this.inText, this.captures⟩
      · have hle : place.offset ≤ found.span.stop :=
          hplaced.low_le.trans hplaced.inText.ordered
        obtain ⟨hs, ho⟩ := hp.skip hplaced.inText.stop hle
        obtain ⟨h1, h2⟩ := ih (some found.span.stop) hs
        rw [ho] at h1
        refine ⟨fun m hm => ?_, List.pairwise_cons.2 ⟨fun m hm => (h1 m hm).low_le, h2⟩⟩
        rcases List.mem_cons.1 hm with rfl | hm
        · exact hplaced
        · have := h1 m hm
          exact ⟨hle.trans this.low_le, this.stop_le, this.inText, this.captures⟩

/-- A match lies in the text, and its captures lie in the match. -/
theorem occurrences_placed (program : Program) {found : Match}
    (h : found ∈ program.occurrences text) : found.Placed text 0 (byteLength text) :=
  (program.occurrencesFrom_placed _ none (Cursor.inText_start text)).1 found h

/-- No match overlaps an earlier one. -/
theorem occurrences_apart (program : Program) (text : List Char) :
    (program.occurrences text).Pairwise fun a b => a.span.stop ≤ b.span.start :=
  (program.occurrencesFrom_placed _ none (Cursor.inText_start text)).2

end Program

end StyleTokens

/-
The search finds the leftmost match.

* `Program.Regular` — a program on which a search can rely;
* `Program.Finds` — the match of the thread that begins first and leads to one;
* `Program.find?_eq` — a search finds it;
* `Program.yields_of_mem_occurrences` — each match in a text is the one that the
  thread begun at its start leads to;
* `Program.exists_mem_occurrences` — wherever a thread leads to a match, a match
  of the text lies over its start.

Design notes: the last two say what the matches of a text are without any regard
to where a search has been before.
-/
import StyleTokens.Proofs.Pattern.Placement
import StyleTokens.Proofs.Pattern.Settling

namespace StyleTokens

open Text

/-- A sound program whose starred bodies consume characters. -/
structure Program.Regular (program : Program) : Prop extends program.Sound where
  starsConsume : program.root.starsConsume = true

theorem Pattern.program_regular {pattern : Pattern} (h : pattern.starsConsume = true) :
    pattern.program.Regular :=
  ⟨pattern.program_sound, pattern.program_starsConsume h⟩

namespace Program

/-- The match of the thread that begins first, from a place on, and leads to one. -/
inductive Finds (program : Program) : Cursor → Option Match → Prop
  | here {place : Cursor} {found : Match}
    (h : (Thread.begin program place.offset).Yields place (some found)) :
    Finds program place (some found)
  | later {place next : Cursor} {result : Option Match}
    (h : (Thread.begin program place.offset).Yields place none) (hn : place.next? = some next)
    (h' : Finds program next result) : Finds program place result
  | never {place : Cursor} (h : (Thread.begin program place.offset).Yields place none)
    (hn : place.next? = none) : Finds program place none

/-- A thread of the program. -/
abbrev Fits (program : Program) (thread : Thread) : Prop :=
  thread.Fit (program.root.sites []) (2 * program.size)

variable {program : Program}

theorem Regular.begin_progresses (h : program.Regular) (offset : Nat) :
    (Thread.begin program offset).Progresses := by
  intro node hn
  obtain rfl := List.mem_singleton.1 hn
  exact h.starsConsume

theorem Regular.begin_fits (h : program.Regular) (offset : Nat) :
    program.Fits (Thread.begin program offset) := by
  refine ⟨h.begin_progresses offset, ?_, ?_, trivial⟩
  · change sitesAll [program.root] ⊆ _
    simp [sitesAll]
  · exact h.load_le

theorem Regular.exists_finds (h : program.Regular) : ∀ (rest : List Char) (before : Option Char)
    (offset : Nat), ∃ result, program.Finds ⟨before, offset, rest⟩ result := by
  intro rest
  induction rest with
  | nil =>
    intro before offset
    obtain ⟨_ | found, hy⟩ := Thread.exists_yields _ _ ⟨before, offset, []⟩
      (Thread.begin program offset) rfl rfl (h.begin_progresses offset)
    · exact ⟨none, .never hy rfl⟩
    · exact ⟨some found, .here hy⟩
  | cons c rest ih =>
    intro before offset
    obtain ⟨_ | found, hy⟩ := Thread.exists_yields _ _ ⟨before, offset, c :: rest⟩
      (Thread.begin program offset) rfl rfl (h.begin_progresses offset)
    · obtain ⟨result, hf⟩ := ih (some c) (offset + c.utf8Size)
      exact ⟨result, .later hy rfl hf⟩
    · exact ⟨some found, .here hy⟩

/-- A label of a sound program tells what is left to do behind it. -/
theorem Sound.sites_inj (h : program.Sound) :
    ∀ x ∈ program.root.sites [], ∀ y ∈ program.root.sites [], x.1 = y.1 → x = y := by
  have hn := h.nodup
  rw [← Node.map_fst_sites program.root []] at hn
  exact fun x hx y hy hxy => List.inj_on_of_nodup_map hn hx hy hxy

theorem Sound.sites_lt (h : program.Sound) : ∀ x ∈ program.root.sites [], x.1 < program.labels := by
  intro x hx
  refine h.labels_lt x.1 ?_
  rw [← Node.map_fst_sites program.root []]
  exact List.mem_map_of_mem hx

/-- The fuel of the search is enough. -/
theorem pendingSteps_le {threads : List Thread} (h : ∀ t ∈ threads, program.Fits t) :
    pendingSteps threads + 2 * (2 * program.size + 1) * program.labels ≤
      program.effort threads.length := by
  have hsteps : pendingSteps threads ≤ threads.length * (2 * program.size + 1) := by
    induction threads with
    | nil => simp [pendingSteps]
    | cons t threads ih =>
      have h1 := (h t List.mem_cons_self).bounded.weight_le
      have h2 := ih fun t ht => h t (List.mem_cons_of_mem _ ht)
      rw [pendingSteps, List.length_cons, Nat.succ_mul]
      omega
  rw [effort]
  nlinarith

/-- Threads settled at a place, a new one among them as long as there is no
match. -/
theorem Regular.atPlace_leads (h : program.Regular) (place : Cursor) {threads : List Thread}
    (hfit : ∀ t ∈ threads, program.Fits t) (found result : Option Match)
    (hl : Leads place
      (if found.isNone then threads ++ [Thread.begin program place.offset] else threads) result) :
    ∃ waiting done, program.atPlace found threads place.before place.rest.head? place.offset =
        (waiting, done <|> found) ∧
      (∀ t ∈ waiting, program.Fits t ∧ t.moveAt place = .wait) ∧
      ∃ result', Leads place waiting result' ∧ result = (result' <|> done) := by
  set all := if found.isNone then threads ++ [Thread.begin program place.offset] else threads
    with hall
  have hfit' : ∀ t ∈ all, program.Fits t := by
    intro t ht
    rw [hall] at ht
    split at ht
    · rcases List.mem_append.1 ht with ht | ht
      · exact hfit t ht
      · exact List.mem_singleton.1 ht ▸ h.begin_fits place.offset
    · exact hfit t ht
  obtain ⟨waiting, done, hs, hwait, hresult⟩ := settle_leads place h.toSound.sites_inj
    h.toSound.sites_lt (program.effort all.length) ∅ ∅ [] all result (by simp) (by simp) (by simp)
    hfit' (by simp) (by simpa using pendingSteps_le hfit') (by simpa using hl)
  refine ⟨waiting, done, ?_, hwait, hresult⟩
  rw [atPlace, ← hall, hs]

end Program

namespace Leads

variable {place : Cursor} {threads : List Thread} {result : Option Match}

/-- At the end of the text, threads that wait lead nowhere. -/
theorem eq_none_of_end (hrest : place.rest = []) (hw : ∀ t ∈ threads, t.moveAt place = .wait)
    (h : Leads place threads result) : result = none := by
  induction threads with
  | nil => cases h; rfl
  | cons t threads ih =>
    have hstuck := Thread.Yields.stuck (hw t List.mem_cons_self) (by simp [hrest])
    rcases cons_iff.1 h with ⟨found, rfl, hy⟩ | ⟨-, h⟩
    · exact hy.unique hstuck
    · exact ih (fun t ht => hw t (List.mem_cons_of_mem _ ht)) h

/-- Threads that wait lead where they lead after the next character. -/
theorem consume {c : Char} {rest : List Char} (hrest : place.rest = c :: rest)
    (hw : ∀ t ∈ threads, t.moveAt place = .wait) (h : Leads place threads result) :
    Leads ⟨some c, place.offset + c.utf8Size, rest⟩ (threads.filterMap (Thread.consume? c))
      result := by
  induction threads generalizing result with
  | nil => cases h; exact .nil
  | cons t threads ih =>
    have hmove := hw t List.mem_cons_self
    have hw' : ∀ t ∈ threads, t.moveAt place = .wait := fun t ht =>
      hw t (List.mem_cons_of_mem _ ht)
    cases hc : t.consume? c with
    | none =>
      rw [List.filterMap_cons_none hc]
      rcases cons_iff.1 h with ⟨found, rfl, hy⟩ | ⟨-, h⟩
      · have := (Thread.yields_stuck hmove (by simpa [hrest] using hc)).1 hy
        simp at this
      · exact ih hw' h
    | some next =>
      rw [List.filterMap_cons_some hc]
      simp only [cons_iff, Thread.yields_consume hmove hrest hc] at h
      rw [cons_iff]
      rcases h with h | ⟨h, h'⟩
      · exact Or.inl h
      · exact Or.inr ⟨h, ih hw' h'⟩

end Leads

namespace Program

variable {program : Program}

theorem advance_cons (found : Option Match) (threads : List Thread) (before : Option Char)
    (offset : Nat) (c : Char) (rest : List Char) :
    program.advance found threads before offset (c :: rest) =
      match program.atPlace found threads before (some c) offset with
      | ([], some found) => some found
      | (waiting, found) =>
        program.advance found (waiting.filterMap (Thread.consume? c)) (some c)
          (offset + c.utf8Size) rest := rfl

/-- The search, step by step: it finds what the threads lead to or, without
that, what is found from the place on (`last`), unless a match is known. -/
theorem Regular.advance_eq (h : program.Regular) : ∀ (rest : List Char) (before : Option Char)
    (offset : Nat) (threads : List Thread) (found result last : Option Match),
    (∀ t ∈ threads, program.Fits t) → Leads ⟨before, offset, rest⟩ threads result →
    (found = none → program.Finds ⟨before, offset, rest⟩ last) →
    (∀ m, found = some m → last = some m) →
    program.advance found threads before offset rest = (result <|> last) := by
  -- What the threads at a place lead to, the new one included.
  have hall : ∀ (place : Cursor) (threads : List Thread) (found result last : Option Match),
      Leads place threads result → (found = none → program.Finds place last) →
      (∀ m, found = some m → last = some m) →
      ∃ all, Leads place
          (if found.isNone then threads ++ [Thread.begin program place.offset] else threads) all ∧
        (result <|> last) = (all <|> last) ∧
        (found = none → all = none → ∀ next, place.next? = some next →
          program.Finds next last) ∧
        (found = none → all = none → place.next? = none → last = none) := by
    intro place threads found result last hl hfinds hknown
    cases found with
    | some m => exact ⟨result, hl, rfl, by simp, by simp⟩
    | none =>
      have hbegin : ∃ all, Leads place [Thread.begin program place.offset] all ∧
          (all <|> last) = last ∧
          (all = none → ∀ next, place.next? = some next → program.Finds next last) ∧
          (all = none → place.next? = none → last = none) := by
        rcases hfinds rfl with hy | ⟨hy, hn, hf⟩ | ⟨hy, hn⟩
        · exact ⟨_, .found hy, rfl, by simp, by simp⟩
        · exact ⟨none, .next hy .nil, rfl, fun _ other ho => by
            rw [hn] at ho
            exact Option.some.inj ho ▸ hf, fun _ ho => by simp [hn] at ho⟩
        · exact ⟨none, .next hy .nil, rfl, fun _ other ho => by simp [hn] at ho, fun _ _ => rfl⟩
      obtain ⟨all, h1, h2, h3, h4⟩ := hbegin
      cases result with
      | some m => exact ⟨some m, Leads.append_iff.2 (Or.inl ⟨m, rfl, hl⟩), rfl, by simp, by simp⟩
      | none =>
        exact ⟨all, Leads.append_iff.2 (Or.inr ⟨hl, h1⟩), by simp [h2], fun _ => h3, fun _ => h4⟩
  intro rest
  induction rest with
  | nil =>
    intro before offset threads found result last hfit hl hfinds hknown
    obtain ⟨all, h1, h2, -, h4⟩ := hall ⟨before, offset, []⟩ threads found result last hl hfinds
      hknown
    obtain ⟨waiting, done, hat, hwait, result', hl', hr⟩ :=
      h.atPlace_leads ⟨before, offset, []⟩ hfit found all h1
    obtain rfl := hl'.eq_none_of_end rfl fun t ht => (hwait t ht).2
    rw [h2, hr, advance]
    change (program.atPlace found threads before ([] : List Char).head? offset).2 = _
    rw [hat]
    cases done with
    | some m => rfl
    | none =>
      cases found with
      | some m => simp [hknown m rfl]
      | none => simp [h4 rfl (by simpa using hr) rfl]
  | cons c rest ih =>
    intro before offset threads found result last hfit hl hfinds hknown
    obtain ⟨all, h1, h2, h3, -⟩ := hall ⟨before, offset, c :: rest⟩ threads found result last hl
      hfinds hknown
    obtain ⟨waiting, done, hat, hwait, result', hl', hr⟩ :=
      h.atPlace_leads ⟨before, offset, c :: rest⟩ hfit found all h1
    have hnext := hl'.consume rfl fun t ht => (hwait t ht).2
    have hfit' : ∀ t ∈ waiting.filterMap (Thread.consume? c), program.Fits t := by
      intro t ht
      obtain ⟨old, hm, hc⟩ := List.mem_filterMap.1 ht
      exact (hwait old hm).1.consume hc
    -- The match that is known after this place, or what is found from the next one on.
    have hlast : ∃ last', ((done <|> found) = none →
          program.Finds ⟨some c, offset + c.utf8Size, rest⟩ last') ∧
        (∀ m, (done <|> found) = some m → last' = some m) ∧
        (result' <|> last') = (all <|> last) := by
      rw [hr]
      cases hk : (done <|> found) with
      | some m =>
        refine ⟨some m, by simp, by simp, ?_⟩
        cases done with
        | some d =>
          obtain rfl : d = m := Option.some.inj hk
          cases result' <;> rfl
        | none =>
          rw [hknown m hk]
          cases result' <;> rfl
      | none =>
        cases done with
        | some d => simp at hk
        | none =>
          obtain rfl : found = none := by simpa using hk
          cases hr' : result' with
          | some m =>
            obtain ⟨last', hf⟩ := h.exists_finds rest (some c) (offset + c.utf8Size)
            exact ⟨last', fun _ => hf, by simp, rfl⟩
          | none =>
            refine ⟨last, fun _ => h3 rfl ?_ _ rfl, by simp, rfl⟩
            rw [hr, hr']
            rfl
    obtain ⟨last', hf1, hf2, hf3⟩ := hlast
    have hrec := ih (some c) (offset + c.utf8Size) _ (done <|> found) result' last' hfit' hnext
      hf1 hf2
    rw [List.head?_cons] at hat
    rw [h2, ← hf3, ← hrec, advance_cons, hat]
    cases waiting with
    | cons t waiting => rfl
    | nil =>
      cases hk : (done <|> found) with
      | none => rfl
      | some m =>
        rw [hk] at hrec
        rw [hrec]
        cases hl'
        rw [hf2 m hk]
        rfl

/-- A search finds the match of the thread that begins first and leads to one. -/
theorem Regular.find?_eq (h : program.Regular) {place : Cursor} {result : Option Match}
    (hf : program.Finds place result) : program.find? place = result := by
  have := h.advance_eq place.rest place.before place.offset [] none none result (by simp) .nil
    (fun _ => hf) (by simp)
  exact this

end Program

/-! ### Matches in a text -/

namespace Cursor

/-- The place between two parts of a text. -/
def between (a rest : List Char) : Cursor :=
  ⟨endChar none a, byteLength a, rest⟩

theorem next?_between (a : List Char) (c : Char) (rest : List Char) :
    (between a (c :: rest)).next? = some (between (a ++ [c]) rest) := by
  simp [between, next?, byteLength]

theorem skipIn_word (before : Option Char) (offset : Nat) (word rest : List Char) :
    skipIn before offset (byteLength word) (word ++ rest) =
      ⟨endChar before word, offset + byteLength word, rest⟩ := by
  induction word generalizing before offset with
  | nil => cases rest <;> simp [skipIn]
  | cons c word ih =>
    have hc := c.utf8Size_pos
    have := ih (some c) (offset + c.utf8Size)
    rw [byteLength, List.cons_append, skipIn, if_neg (by omega), Nat.add_sub_cancel_left, this,
      endChar_cons, Nat.add_assoc]

theorem skip_between (a word rest : List Char) :
    (between a (word ++ rest)).skip (byteLength word) = between (a ++ word) rest := by
  rw [skip, between]
  dsimp only
  rw [skipIn_word, between, endChar_append, byteLength_append]

end Cursor

namespace Node

/-- A node that matches nothing less than a character has no empty word. -/
theorem not_spells_nil {node : Node} (h : node.matchesNothing = false) (before : Option Char)
    (after : List Char) : ¬ node.Spells before [] after := by
  induction node generalizing before after with
  | empty => simp [matchesNothing] at h
  | one set =>
    rintro ⟨c, hc, -⟩
    simp at hc
  | assert condition => simp [matchesNothing] at h
  | group name body ih => exact ih h before after
  | seq a b iha ihb =>
    rintro ⟨u, v, huv, h1, h2⟩
    obtain ⟨rfl, rfl⟩ := List.append_eq_nil_iff.1 huv.symm
    rcases Bool.and_eq_false_iff.1 h with h | h
    · exact iha h _ _ h1
    · exact ihb h _ _ h2
  | choice label a b iha ihb =>
    obtain ⟨ha, hb⟩ := Bool.or_eq_false_iff.1 h
    rintro (hw | hw)
    · exact iha ha _ _ hw
    · exact ihb hb _ _ hw
  | again label greedy body ih => simp [matchesNothing] at h
  | atLeastOnce label greedy body ih =>
    rintro ⟨n, u, v, huv, h1, -⟩
    obtain ⟨rfl, rfl⟩ := List.append_eq_nil_iff.1 huv.symm
    exact ih h _ _ h1

end Node

namespace Program

variable {program : Program}

/-- The match that the thread leads to which begins between two parts of a text. -/
abbrev YieldsAt (program : Program) (a rest : List Char) (result : Option Match) : Prop :=
  (Thread.begin program (byteLength a)).Yields (.between a rest) result

/-- The match found from a place on begins there or further on. -/
theorem Finds.exists_yieldsAt {place : Cursor} {result : Option Match}
    (hf : program.Finds place result) : ∀ (a rest : List Char) (found : Match),
    place = .between a rest → result = some found →
      ∃ u rest', rest = u ++ rest' ∧ program.YieldsAt (a ++ u) rest' (some found) := by
  induction hf with
  | here h =>
    rintro a rest found rfl ⟨⟩
    exact ⟨[], rest, rfl, by rw [List.append_nil]; exact h⟩
  | later h hn _ ih =>
    rintro a rest found rfl hr
    cases rest with
    | nil => simp [Cursor.between, Cursor.next?] at hn
    | cons c rest =>
      rw [Cursor.next?_between] at hn
      obtain ⟨u, rest', rfl, hy⟩ := ih (a ++ [c]) rest found (Option.some.inj hn).symm hr
      exact ⟨c :: u, rest', rfl, by simpa using hy⟩
  | never h hn => simp

/-- The match found from a place on begins no later than any other one. -/
theorem Finds.exists_le {place : Cursor} {result : Option Match}
    (hf : program.Finds place result) : ∀ (a u rest : List Char) (found : Match),
    place = .between a (u ++ rest) → program.YieldsAt (a ++ u) rest (some found) →
      ∃ m, result = some m ∧ m.span.start ≤ byteLength (a ++ u) := by
  induction hf with
  | @here place m h =>
    rintro a u rest found rfl -
    obtain ⟨word, after, -, hspan⟩ := h.spells m rfl
    refine ⟨m, rfl, ?_⟩
    rw [hspan]
    simp [Thread.begin, Cursor.between]
  | @later place next result h hn _ ih =>
    rintro a u rest found rfl hy
    cases u with
    | nil =>
      rw [List.append_nil] at hy
      simpa using h.unique hy
    | cons c u =>
      rw [List.cons_append, Cursor.next?_between] at hn
      have := ih (a ++ [c]) u rest found (Option.some.inj hn).symm (by simpa using hy)
      simpa using this
  | @never place h hn =>
    rintro a u rest found rfl hy
    cases u with
    | nil =>
      rw [List.append_nil] at hy
      simpa using h.unique hy
    | cons c u => simp [Cursor.between, Cursor.next?] at hn

/-- What a match covers. -/
theorem YieldsAt.exists_word {a rest : List Char} {found : Match}
    (h : program.YieldsAt a rest (some found)) :
    ∃ word after, rest = word ++ after ∧ program.root.Spells (endChar none a) word after ∧
      found.span = ⟨byteLength a, byteLength (a ++ word)⟩ := by
  obtain ⟨word, after, ⟨hrest, hs⟩, hspan⟩ := h.spells found rfl
  refine ⟨word, after, hrest, ?_, by rw [hspan, byteLength_append]; rfl⟩
  change spellsAll [program.root] (endChar none a) word after at hs
  rwa [spellsAll, spellsAll, Language.seq_nothing] at hs

/-- The search from a place between two parts of a text. -/
theorem Regular.exists_find? (h : program.Regular) (a rest : List Char) :
    ∃ result, program.Finds (.between a rest) result ∧
      program.find? (.between a rest) = result := by
  obtain ⟨result, hf⟩ := h.exists_finds rest (endChar none a) (byteLength a)
  exact ⟨result, hf, h.find?_eq hf⟩

variable {text : List Char}

/-- The search goes on behind a match that covers a word. -/
theorem occurrencesFrom_cons (fuel : Nat) (last : Option Nat) {a u word after : List Char}
    {found : Match} (hword : word ≠ [])
    (hfind : program.find? (.between a (u ++ (word ++ after))) = some found)
    (hspan : found.span = ⟨byteLength (a ++ u), byteLength (a ++ u ++ word)⟩) :
    program.occurrencesFrom (fuel + 1) last (.between a (u ++ (word ++ after))) =
      found :: program.occurrencesFrom fuel (some found.span.stop)
        (.between (a ++ (u ++ word)) after) := by
  have hpos := byteLength_pos hword
  have hlen : found.span.length ≠ 0 := by
    rw [hspan, Span.length, byteLength_append (a ++ u)]
    dsimp only
    omega
  have hskip := Cursor.skip_between a (u ++ word) after
  rw [List.append_assoc] at hskip
  have hstop : found.span.stop - byteLength a = byteLength (u ++ word) := by
    rw [hspan]
    simp only [byteLength_append]
    omega
  rw [occurrencesFrom, hfind]
  dsimp only
  rw [if_neg (by simp [hlen]), ← hskip, ← hstop]
  rfl

theorem Regular.occurrencesFrom_cases (h : program.Regular)
    (hsolid : program.root.matchesNothing = false) (fuel : Nat) (last : Option Nat)
    (a rest : List Char) :
    (program.Finds (.between a rest) none ∧
      program.occurrencesFrom (fuel + 1) last (.between a rest) = []) ∨
    ∃ u word after found, rest = u ++ (word ++ after) ∧ word ≠ [] ∧
      program.Finds (.between a rest) (some found) ∧
      program.YieldsAt (a ++ u) (word ++ after) (some found) ∧
      found.span = ⟨byteLength (a ++ u), byteLength (a ++ u ++ word)⟩ ∧
      program.occurrencesFrom (fuel + 1) last (.between a rest) =
        found :: program.occurrencesFrom fuel (some found.span.stop)
          (.between (a ++ (u ++ word)) after) := by
  obtain ⟨_ | found, hf, hfind⟩ := h.exists_find? a rest
  · refine Or.inl ⟨hf, ?_⟩
    rw [occurrencesFrom, hfind]
  · obtain ⟨u, rest', rfl, hy⟩ := hf.exists_yieldsAt a rest found rfl rfl
    obtain ⟨word, after, rfl, hs, hspan⟩ := hy.exists_word
    have hword : word ≠ [] := fun he => Node.not_spells_nil hsolid _ _ (he ▸ hs)
    exact Or.inr ⟨u, word, after, found, rfl, hword, hf, hy, hspan,
      occurrencesFrom_cons fuel last hword hfind hspan⟩

theorem Regular.yields_of_mem_occurrencesFrom (h : program.Regular)
    (hsolid : program.root.matchesNothing = false) : ∀ (fuel : Nat) (last : Option Nat)
    (a rest : List Char), ∀ found ∈ program.occurrencesFrom fuel last (.between a rest),
      ∃ u rest', rest = u ++ rest' ∧ program.YieldsAt (a ++ u) rest' (some found) := by
  intro fuel
  induction fuel with
  | zero => simp [occurrencesFrom]
  | succ fuel ih =>
    intro last a rest found hm
    rcases h.occurrencesFrom_cases hsolid fuel last a rest with
      ⟨-, he⟩ | ⟨u, word, after, m, rfl, -, -, hy, -, he⟩
    · simp [he] at hm
    · rw [he] at hm
      rcases List.mem_cons.1 hm with rfl | hm
      · exact ⟨u, word ++ after, rfl, hy⟩
      · obtain ⟨u', rest', rfl, hy'⟩ := ih _ _ _ found hm
        exact ⟨u ++ (word ++ u'), rest', by simp, by simpa using hy'⟩

theorem Regular.exists_mem_occurrencesFrom (h : program.Regular)
    (hsolid : program.root.matchesNothing = false) : ∀ (fuel : Nat) (last : Option Nat)
    (a u rest : List Char) (found : Match), (u ++ rest).length < fuel →
      program.YieldsAt (a ++ u) rest (some found) →
      ∃ m ∈ program.occurrencesFrom fuel last (.between a (u ++ rest)),
        m.span.start ≤ byteLength (a ++ u) ∧ byteLength (a ++ u) < m.span.stop := by
  intro fuel
  induction fuel with
  | zero => simp
  | succ fuel ih =>
    intro last a u rest found hfuel hy
    rcases h.occurrencesFrom_cases hsolid fuel last a (u ++ rest) with
      ⟨hf, -⟩ | ⟨v, word, after, m, hsplit, hword, hf, -, hspan, he⟩
    · obtain ⟨m, hm, -⟩ := hf.exists_le a u rest found rfl hy
      simp at hm
    · obtain ⟨_, ⟨⟩, hle⟩ := hf.exists_le a u rest found rfl hy
      rw [he]
      rcases Nat.lt_or_ge (byteLength (a ++ u)) m.span.stop with hlt | hge
      · exact ⟨m, List.mem_cons_self, hle, hlt⟩
      · -- The match ends before: go on behind it.
        rw [hspan] at hge
        simp only [byteLength_append] at hge
        obtain ⟨u', rfl, hafter⟩ := append_eq_append_of_le
          (show (v ++ word) ++ after = u ++ rest by rw [hsplit, List.append_assoc])
          (by rw [byteLength_append]; omega)
        subst hafter
        have hpos := List.length_pos_iff.2 hword
        simp only [List.length_append] at hfuel
        obtain ⟨m', hm', h1, h2⟩ := ih (some m.span.stop) (a ++ (v ++ word)) u' rest found
          (by rw [List.length_append]; omega) (by simpa using hy)
        exact ⟨m', List.mem_cons_of_mem _ hm', by simpa using h1, by simpa using h2⟩

/-- Each match in a text is the one that the thread begun at its start leads to. -/
theorem Regular.yields_of_mem_occurrences (h : program.Regular)
    (hsolid : program.root.matchesNothing = false) {text : List Char} {found : Match}
    (hm : found ∈ program.occurrences text) :
    ∃ a rest, text = a ++ rest ∧ program.YieldsAt a rest (some found) := by
  obtain ⟨u, rest, rfl, hy⟩ := h.yields_of_mem_occurrencesFrom hsolid _ none [] text found hm
  exact ⟨u, rest, rfl, hy⟩

/-- Wherever a thread leads to a match, a match of the text lies over its start. -/
theorem Regular.exists_mem_occurrences (h : program.Regular)
    (hsolid : program.root.matchesNothing = false) {a rest : List Char} {found : Match}
    (hy : program.YieldsAt a rest (some found)) :
    ∃ m ∈ program.occurrences (a ++ rest),
      m.span.start ≤ byteLength a ∧ byteLength a < m.span.stop :=
  h.exists_mem_occurrencesFrom hsolid _ none [] a rest found (by omega) hy

/-- A program that matches nothing less than a character does not occur in the
empty text. -/
theorem Regular.occursIn_nil (h : program.Regular)
    (hsolid : program.root.matchesNothing = false) : program.occursIn [] = false := by
  obtain ⟨_ | found, hf, hfind⟩ := h.exists_find? [] []
  · rw [occursIn]
    exact congrArg Option.isSome hfind
  · obtain ⟨u, rest, hur, hy⟩ := hf.exists_yieldsAt [] [] found rfl rfl
    obtain ⟨word, after, rfl, hs, -⟩ := hy.exists_word
    obtain ⟨rfl, hwa⟩ := List.append_eq_nil_iff.1 hur.symm
    obtain ⟨rfl, rfl⟩ := List.append_eq_nil_iff.1 hwa
    exact absurd hs (Node.not_spells_nil hsolid _ _)

end Program

end StyleTokens

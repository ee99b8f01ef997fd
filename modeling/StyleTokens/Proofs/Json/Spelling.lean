/-
Texts that spell a document.

Between the signs of a document there may be white space.  However much of it there
is, and wherever it stands, the reader finds the same document.

* `Json.Spells` — a text that spells a document, with any white space in it;
* `reads` — the reader goes through values, items and members that are spelled;
* `read_of_spells` — a text that spells a document is read as that document.

Design notes: the reader has fuel for every character of the text.  The statements about
values, items and members therefore ask for more fuel than the text has characters.
-/
import Mathlib.Data.List.TakeWhile
import StyleTokens.Proofs.Json.Lexing

namespace StyleTokens.Json

/-- White space only. -/
def Blank (text : List Char) : Prop :=
  ∀ c ∈ text, isSpace c = true

theorem blank_nil : Blank [] :=
  List.forall_mem_nil _

mutual

/-- A text that spells a document, from its first sign to its last one.  Its numbers are
integers that 64 bits hold. -/
inductive Spells : Json → List Char → Prop
  | null : Spells .null "null".toList
  | bool (flag : Bool) : Spells (.bool flag) (if flag then "true" else "false").toList
  | integer {n : Int} (fits : Fits n) : Spells (.integer n) (toString n).toList
  | string (value : String) : Spells (.string value) (quote value).toList
  | noItems : Spells (.array []) ['[', ']']
  | array {items : List Json} {text : List Char} (h : SpellsItems items text) :
      Spells (.array items) ('[' :: text)
  | noMembers : Spells (.object []) ['\x7b', '\x7d']
  | object {members : List (String × Json)} {text : List Char} (h : SpellsMembers members text) :
      Spells (.object members) ('\x7b' :: text)

/-- A text that spells the items of an array, up to and with its closing bracket. -/
inductive SpellsItems : List Json → List Char → Prop
  | last {item : Json} {before text after : List Char} (hb : Blank before)
      (h : Spells item text) (ha : Blank after) :
      SpellsItems [item] (before ++ (text ++ (after ++ [']'])))
  | more {item : Json} {items : List Json} {before text after others : List Char}
      (hb : Blank before) (h : Spells item text) (ha : Blank after)
      (hs : SpellsItems items others) :
      SpellsItems (item :: items) (before ++ (text ++ (after ++ ',' :: others)))

/-- A text that spells the members of an object, up to and with its closing brace. -/
inductive SpellsMembers : List (String × Json) → List Char → Prop
  | last (name : String) {value : Json} {before gap text after : List Char} (hb : Blank before)
      (hg : Blank gap) (h : Spells value text) (ha : Blank after) :
      SpellsMembers [(name, value)]
        (before ++ ((quote name).toList ++ ':' :: (gap ++ (text ++ (after ++ ['\x7d'])))))
  | more (name : String) {value : Json} {members : List (String × Json)}
      {before gap text after others : List Char} (hb : Blank before) (hg : Blank gap)
      (h : Spells value text) (ha : Blank after) (hs : SpellsMembers members others) :
      SpellsMembers ((name, value) :: members)
        (before ++ ((quote name).toList ++ ':' :: (gap ++ (text ++ (after ++ ',' :: others)))))

end

/-! ### First signs -/

variable {blanks text rest : List Char} {c : Char} {fuel : Nat}

theorem stops_nil : Stops [] :=
  fun _ h => nomatch h

theorem stops_of_mark (hc : c = ',' ∨ c = ']' ∨ c = '\x7d') : Stops (c :: rest) := by
  intro other ho
  obtain rfl : c = other := Option.some.inj ho
  rcases hc with rfl | rfl | rfl <;> decide

/-- White space ends a value, like what may come behind it. -/
theorem Blank.stops (hb : Blank blanks) (hs : Stops rest) : Stops (blanks ++ rest) := by
  cases blanks with
  | nil => exact hs
  | cons blank blanks =>
    intro other ho
    obtain rfl : blank = other := Option.some.inj ho
    have hspace := hb blank List.mem_cons_self
    simp only [isSpace, Bool.or_eq_true, beq_iff_eq] at hspace
    rcases hspace with ((rfl | rfl) | rfl) | rfl <;> decide

/-- What a number starts with. -/
theorem exists_head_toString (n : Int) :
    ∃ c text, (toString n).toList = c :: text ∧ (c.isDigit = true ∨ c = '-') := by
  cases n with
  | ofNat m =>
    obtain ⟨c, digits, htext⟩ := List.exists_cons_of_ne_nil (@Nat.toDigits_ne_nil m 10)
    have hmem : c ∈ Nat.toDigits 10 m := htext ▸ List.mem_cons_self
    exact ⟨c, digits, String.toList_ofList.trans htext,
      Or.inl (Nat.isDigit_of_mem_toDigits (by decide) (by decide) hmem)⟩
  | negSucc m => exact ⟨'-', _, String.toList_append, Or.inr rfl⟩

/-- A digit or the sign of a number is no other sign. -/
theorem ne_of_head {mark : Char} (hc : c.isDigit = true ∨ c = '-') (hd : mark.isDigit = false)
    (hm : mark ≠ '-') : c ≠ mark := by
  rintro rfl
  rcases hc with hc | hc
  · rw [hd] at hc
    cases hc
  · exact hm hc

theorem isSpace_of_head (hc : c.isDigit = true ∨ c = '-') : isSpace c = false := by
  simp only [isSpace, Bool.or_eq_false_iff, beq_eq_false_iff_ne]
  exact ⟨⟨⟨ne_of_head hc rfl (by decide), ne_of_head hc rfl (by decide)⟩,
    ne_of_head hc rfl (by decide)⟩, ne_of_head hc rfl (by decide)⟩

theorem exists_toList_quote (value : String) : ∃ text, (quote value).toList = '"' :: text := by
  rw [quote, String.toList_append, String.toList_append]
  exact ⟨_, rfl⟩

/-- What a document starts with. -/
theorem Spells.exists_head {document : Json} (h : Spells document text) :
    ∃ c tail, text = c :: tail ∧ isSpace c = false ∧ c ≠ ']' := by
  cases h with
  | null => exact ⟨'n', _, (rfl : "null".toList = 'n' :: "ull".toList), rfl, by decide⟩
  | bool flag =>
    cases flag with
    | true => exact ⟨'t', _, (rfl : "true".toList = 't' :: "rue".toList), rfl, by decide⟩
    | false => exact ⟨'f', _, (rfl : "false".toList = 'f' :: "alse".toList), rfl, by decide⟩
  | @integer n _ =>
    obtain ⟨c, tail, htext, hc⟩ := exists_head_toString n
    exact ⟨c, tail, htext, isSpace_of_head hc, ne_of_head hc rfl (by decide)⟩
  | string value =>
    obtain ⟨tail, htext⟩ := exists_toList_quote value
    exact ⟨'"', tail, htext, rfl, by decide⟩
  | noItems => exact ⟨'[', _, rfl, rfl, by decide⟩
  | array _ => exact ⟨'[', _, rfl, rfl, by decide⟩
  | noMembers => exact ⟨'\x7b', _, rfl, rfl, by decide⟩
  | object _ => exact ⟨'\x7b', _, rfl, rfl, by decide⟩

/-- Behind an opening bracket an item is next, and not the closing one. -/
theorem SpellsItems.run_nextSign {all : List Json} (h : SpellsItems all text) :
    ∃ c tail, c ≠ ']' ∧ SpellsItems all (c :: tail) ∧ (c :: tail).length ≤ text.length ∧
      ∀ rest, nextSign.run (text ++ rest) = .ok (c, c :: tail ++ rest) := by
  cases h with
  | @last item before text after hb h ha =>
    obtain ⟨c, tail, rfl, hspace, hne⟩ := h.exists_head
    refine ⟨c, tail ++ (after ++ [']']), hne, .last blank_nil h ha, by simp, fun rest => ?_⟩
    rw [List.append_assoc]
    exact Json.run_nextSign hb hspace
  | @more item items before text after others hb h ha hs =>
    obtain ⟨c, tail, rfl, hspace, hne⟩ := h.exists_head
    refine ⟨c, tail ++ (after ++ ',' :: others), hne, .more blank_nil h ha hs, by simp,
      fun rest => ?_⟩
    rw [List.append_assoc]
    exact Json.run_nextSign hb hspace

/-- Behind an opening brace a name is next. -/
theorem SpellsMembers.run_nextSign {all : List (String × Json)} (h : SpellsMembers all text) :
    ∃ tail, SpellsMembers all ('"' :: tail) ∧ ('"' :: tail).length ≤ text.length ∧
      ∀ rest, nextSign.run (text ++ rest) = .ok ('"', '"' :: tail ++ rest) := by
  cases h with
  | @last name value before gap text after hb hg h ha =>
    obtain ⟨tail, hquote⟩ := exists_toList_quote name
    refine ⟨tail ++ ':' :: (gap ++ (text ++ (after ++ ['\x7d']))), ?_, by simp [hquote],
      fun rest => ?_⟩
    · have := SpellsMembers.last name blank_nil hg h ha
      rwa [hquote] at this
    · rw [hquote, List.append_assoc]
      exact Json.run_nextSign hb (by decide)
  | @more name value members before gap text after others hb hg h ha hs =>
    obtain ⟨tail, hquote⟩ := exists_toList_quote name
    refine ⟨tail ++ ':' :: (gap ++ (text ++ (after ++ ',' :: others))), ?_, by simp [hquote],
      fun rest => ?_⟩
    · have := SpellsMembers.more name blank_nil hg h ha hs
      rwa [hquote] at this
    · rw [hquote, List.append_assoc]
      exact Json.run_nextSign hb (by decide)

/-! ### Values -/

/-- A number is read where a digit or the sign of a number is next. -/
theorem run_value_number (hb : Blank blanks) (hc : c.isDigit = true ∨ c = '-') :
    (value (fuel + 1)).run (blanks ++ c :: text) = number.run (c :: text) := by
  have hmark (mark : Char) (hd : mark.isDigit = false) (hm : mark ≠ '-') : c ≠ mark :=
    ne_of_head hc hd hm
  rw [value, run_bind_of_ok (run_nextSign hb (isSpace_of_head hc))]
  split
  · exact absurd rfl (hmark 'n' rfl (by decide))
  · exact absurd rfl (hmark 't' rfl (by decide))
  · exact absurd rfl (hmark 'f' rfl (by decide))
  · exact absurd rfl (hmark '"' rfl (by decide))
  · exact absurd rfl (hmark '[' rfl (by decide))
  · exact absurd rfl (hmark '\x7b' rfl (by decide))
  · rfl

theorem run_value_integer {n : Int} (h : Fits n) (hb : Blank blanks) (hs : Stops rest) :
    (value (fuel + 1)).run (blanks ++ ((toString n).toList ++ rest)) = .ok (.integer n, rest) := by
  have hnumber := run_number h hs
  obtain ⟨c, digits, htext, hc⟩ := exists_head_toString n
  rw [htext, List.cons_append] at hnumber ⊢
  rw [run_value_number hb hc, hnumber]

theorem run_value_string (value' : String) (hb : Blank blanks) :
    (value (fuel + 1)).run (blanks ++ ((quote value').toList ++ rest)) =
      .ok (.string value', rest) := by
  have hstring := run_string? value' rest
  obtain ⟨text, htext⟩ := exists_toList_quote value'
  rw [htext, List.cons_append] at hstring ⊢
  rw [value, run_bind_of_ok (run_nextSign hb (by decide))]
  exact run_bind_of_ok hstring

/-- A word is read as the value that it stands for. -/
theorem run_value_null (hb : Blank blanks) :
    (value (fuel + 1)).run (blanks ++ ("null".toList ++ rest)) = .ok (.null, rest) := by
  have hword : "null".toList ++ rest = 'n' :: ("ull".toList ++ rest) := rfl
  rw [hword, value, run_bind_of_ok (run_nextSign hb (by decide))]
  exact run_bind_of_ok (run_expect "null")

theorem run_value_bool (flag : Bool) (hb : Blank blanks) :
    (value (fuel + 1)).run (blanks ++ ((if flag then "true" else "false").toList ++ rest)) =
      .ok (.bool flag, rest) := by
  cases flag with
  | true =>
    have hword : "true".toList ++ rest = 't' :: ("rue".toList ++ rest) := rfl
    rw [if_pos rfl, hword, value, run_bind_of_ok (run_nextSign hb (by decide))]
    exact run_bind_of_ok (run_expect "true")
  | false =>
    have hword : "false".toList ++ rest = 'f' :: ("alse".toList ++ rest) := rfl
    rw [if_neg (by simp), hword, value, run_bind_of_ok (run_nextSign hb (by decide))]
    exact run_bind_of_ok (run_expect "false")

/-- What is read behind an opening bracket. -/
theorem run_value_array (hb : Blank blanks) :
    (value (fuel + 1)).run (blanks ++ '[' :: text) =
      (do
        if (← nextSign) = ']' then
          expect "]"
          return .array []
        return .array (← items fuel) : Read Json).run text := by
  rw [value, run_bind_of_ok (run_nextSign hb (by decide))]
  exact run_bind_of_ok (run_expect "[")

/-- What is read behind an opening brace. -/
theorem run_value_object (hb : Blank blanks) :
    (value (fuel + 1)).run (blanks ++ '\x7b' :: text) =
      (do
        if (← nextSign) = '\x7d' then
          expect "\x7d"
          return .object []
        let found ← members fuel
        return match found.mapM fun (name, value) => name.map fun name => (name, value) with
          | some members => .object members
          | none => .unreadable : Read Json).run text := by
  rw [value, run_bind_of_ok (run_nextSign hb (by decide))]
  exact run_bind_of_ok (run_expect "\x7b")

/-! ### Values, items and members -/

/-- With that much fuel a value is read that is spelled. -/
def ReadsValue (fuel : Nat) : Prop :=
  ∀ {document : Json} {text blanks : List Char} (rest : List Char), Spells document text →
    Blank blanks → Stops rest → text.length < fuel →
      (value fuel).run (blanks ++ (text ++ rest)) = .ok (document, rest)

/-- With that much fuel items are read that are spelled. -/
def ReadsItems (fuel : Nat) : Prop :=
  ∀ {all : List Json} {text : List Char} (rest : List Char), SpellsItems all text →
    text.length < fuel → (items fuel).run (text ++ rest) = .ok (all, rest)

/-- With that much fuel members are read that are spelled. -/
def ReadsMembers (fuel : Nat) : Prop :=
  ∀ {all : List (String × Json)} {text : List Char} (rest : List Char), SpellsMembers all text →
    text.length < fuel →
      (members fuel).run (text ++ rest) =
        .ok (all.map fun (name, value) => (some name, value), rest)

theorem readsItems_succ (hvalue : ReadsValue fuel) (hitems : ReadsItems fuel) :
    ReadsItems (fuel + 1) := by
  intro all text rest h hfuel
  cases h with
  | @last item before text after hb h ha =>
    simp only [List.length_append, List.length_singleton] at hfuel
    have hread := hvalue (after ++ ']' :: rest) h hb (ha.stops (stops_of_mark (by simp)))
      (by omega)
    have hsign : nextSign.run (after ++ ']' :: rest) = .ok (']', ']' :: rest) :=
      run_nextSign ha (by decide)
    simp only [List.append_assoc, List.singleton_append]
    rw [items, run_bind_of_ok hread]
    exact (run_bind_of_ok hsign).trans (run_bind_of_ok (run_expect "]"))
  | @more item items' before text after others hb h ha hs =>
    simp only [List.length_append, List.length_cons] at hfuel
    have hread := hvalue (after ++ ',' :: (others ++ rest)) h hb
      (ha.stops (stops_of_mark (by simp))) (by omega)
    have hsign : nextSign.run (after ++ ',' :: (others ++ rest)) =
        .ok (',', ',' :: (others ++ rest)) := run_nextSign ha (by decide)
    have hrest := hitems rest hs (by omega)
    simp only [List.append_assoc, List.cons_append]
    rw [items, run_bind_of_ok hread]
    refine (run_bind_of_ok hsign).trans ?_
    exact (run_bind_of_ok (run_expect ",")).trans (run_bind_of_ok hrest)

/-- A member is read up to what is behind its value. -/
theorem run_members (hvalue : ReadsValue fuel) {name : String} {document : Json}
    {gap behind : List Char} (hb : Blank blanks) (hg : Blank gap) (h : Spells document text)
    (hs : Stops behind) (hfuel : text.length < fuel) :
    (members (fuel + 1)).run
        (blanks ++ ((quote name).toList ++ ':' :: (gap ++ (text ++ behind)))) =
      (do
        match ← nextSign with
        | ',' => do
          expect ","
          return (some name, document) :: (← members fuel)
        | _ => do
          expect "\x7d"
          return [(some name, document)] : Read (List (Option String × Json))).run behind := by
  obtain ⟨tail, hquote⟩ := exists_toList_quote name
  have hskip := @run_skipSpace (tail ++ ':' :: (gap ++ (text ++ behind))) '"' blanks hb (by decide)
  rw [← List.cons_append, ← hquote] at hskip
  have hname := run_string? name (':' :: (gap ++ (text ++ behind)))
  have hcolon := @run_skipSpace (gap ++ (text ++ behind)) ':' [] blank_nil (by decide)
  -- blanks, the name, the colon, the value
  rw [members, run_bind_of_ok hskip, run_bind_of_ok hname]
  refine (run_bind_of_ok hcolon).trans ?_
  exact (run_bind_of_ok (run_expect ":")).trans (run_bind_of_ok (hvalue _ h hg hs hfuel))

theorem readsMembers_succ (hvalue : ReadsValue fuel) (hmembers : ReadsMembers fuel) :
    ReadsMembers (fuel + 1) := by
  intro all text rest h hfuel
  cases h with
  | @last name value before gap text after hb hg h ha =>
    simp only [List.length_append, List.length_cons] at hfuel
    have hsign : nextSign.run (after ++ '\x7d' :: rest) = .ok ('\x7d', '\x7d' :: rest) :=
      run_nextSign ha (by decide)
    simp only [List.append_assoc, List.cons_append, List.nil_append]
    rw [run_members hvalue hb hg h (ha.stops (stops_of_mark (by simp))) (by omega)]
    exact (run_bind_of_ok hsign).trans (run_bind_of_ok (run_expect "\x7d"))
  | @more name value members' before gap text after others hb hg h ha hs =>
    simp only [List.length_append, List.length_cons] at hfuel
    have hsign : nextSign.run (after ++ ',' :: (others ++ rest)) =
        .ok (',', ',' :: (others ++ rest)) := run_nextSign ha (by decide)
    have hrest := hmembers rest hs (by omega)
    simp only [List.append_assoc, List.cons_append]
    rw [run_members hvalue hb hg h (ha.stops (stops_of_mark (by simp))) (by omega)]
    refine (run_bind_of_ok hsign).trans ?_
    exact (run_bind_of_ok (run_expect ",")).trans (run_bind_of_ok hrest)

/-- Names that are all read are the names of the members. -/
theorem mapM_names (all : List (String × Json)) :
    (all.map fun (name, value) => (some name, value)).mapM
        (fun (name, value) => name.map fun name => (name, value)) = some all := by
  induction all with
  | nil => rfl
  | cons member all ih =>
    rw [List.map_cons, List.mapM_cons, ih]
    rfl

theorem readsValue_succ (hitems : ReadsItems fuel) (hmembers : ReadsMembers fuel) :
    ReadsValue (fuel + 1) := by
  intro document text blanks rest h hb hs hfuel
  cases h with
  | null => exact run_value_null hb
  | bool flag => exact run_value_bool flag hb
  | integer hfits => exact run_value_integer hfits hb hs
  | string text => exact run_value_string text hb
  | noItems =>
    have hsign : nextSign.run (']' :: rest) = .ok (']', ']' :: rest) :=
      run_nextSign_of_first (by decide)
    rw [List.cons_append, run_value_array hb]
    exact (run_bind_of_ok hsign).trans (run_bind_of_ok (run_expect "]"))
  | @array all text h =>
    obtain ⟨c, tail, hne, hspelled, hlength, hsign⟩ := h.run_nextSign
    rw [List.length_cons] at hfuel
    rw [List.cons_append, run_value_array hb, run_bind_of_ok (hsign rest), if_neg hne]
    exact run_bind_of_ok (hitems rest hspelled (by omega))
  | noMembers =>
    have hsign : nextSign.run ('\x7d' :: rest) = .ok ('\x7d', '\x7d' :: rest) :=
      run_nextSign_of_first (by decide)
    rw [List.cons_append, run_value_object hb]
    exact (run_bind_of_ok hsign).trans (run_bind_of_ok (run_expect "\x7d"))
  | @object all text h =>
    obtain ⟨tail, hspelled, hlength, hsign⟩ := h.run_nextSign
    rw [List.length_cons] at hfuel
    rw [List.cons_append, run_value_object hb, run_bind_of_ok (hsign rest), if_neg (by decide)]
    refine (run_bind_of_ok (hmembers rest hspelled (by omega))).trans ?_
    rw [mapM_names]
    rfl

/-- Whatever the fuel, what is spelled is read when the fuel is enough for it. -/
theorem reads (fuel : Nat) : ReadsValue fuel ∧ ReadsItems fuel ∧ ReadsMembers fuel := by
  -- all three at once: an item is read with the fuel that is left for it
  induction fuel with
  | zero =>
    refine ⟨?_, ?_, ?_⟩
    · intro _ _ _ _ _ _ _ hfuel
      exact absurd hfuel (Nat.not_lt_zero _)
    · intro _ _ _ _ hfuel
      exact absurd hfuel (Nat.not_lt_zero _)
    · intro _ _ _ _ hfuel
      exact absurd hfuel (Nat.not_lt_zero _)
  | succ fuel ih =>
    obtain ⟨hvalue, hitems, hmembers⟩ := ih
    exact ⟨readsValue_succ hitems hmembers, readsItems_succ hvalue hitems,
      readsMembers_succ hvalue hmembers⟩

/-- **A text that spells a document is read as that document**, with white space before
and behind it. -/
theorem read_of_spells {document : Json} {written : String} {before after : List Char}
    (h : Spells document text) (hb : Blank before) (ha : Blank after)
    (hwritten : written.toList = before ++ (text ++ after)) : read written = .ok document := by
  obtain ⟨hvalue, -, -⟩ := reads (written.length + 1)
  have hlength : text.length < written.length + 1 := by
    rw [← String.length_toList, hwritten]
    simp only [List.length_append]
    omega
  have hstops : Stops after := by
    have := ha.stops stops_nil
    rwa [List.append_nil] at this
  have hread := hvalue _ h hb hstops hlength
  have hrest : (after.dropWhile isSpace).isEmpty = true := by
    rw [List.isEmpty_iff, List.dropWhile_eq_nil_iff]
    exact ha
  rw [read, hwritten]
  refine (congrArg (· >>= _) hread).trans ?_
  show (if (after.dropWhile isSpace).isEmpty then _ else _) = _
  rw [if_pos hrest]
  rfl

end StyleTokens.Json

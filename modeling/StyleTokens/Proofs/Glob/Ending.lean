/-
What a glob asks of the end of a path.

The last tokens of the glob for sources are the signs of an ending, and a path that it
accepts ends with them.

* `length_moveOverAll` — marks stay as many as there are places;
* `exists_of_foldl` — where marks come from that have moved over bytes;
* `ends_of_accepts` — a path that the glob for sources accepts has one of its endings;
* `not_accepts_of_tail` — a path with certain other endings is not accepted.
-/
import Mathlib.Data.List.Induction
import StyleTokens.Configuration
import StyleTokens.Glob

namespace StyleTokens.Glob

variable {text bytes : List UInt8} {marks others : Marks} {passes : UInt8 → Bool} {i : Nat}

/-! ### As many marks as places -/

theorem length_over (h : marks.length = text.length + 1) :
    (marks.over passes text).length = text.length + 1 := by
  simp [Marks.over, h]

theorem length_go (reached : Bool) (marks : Marks) :
    (Marks.onwards.go reached marks).length = marks.length := by
  induction marks generalizing reached with
  | nil => rfl
  | cons marked marks ih => simp [Marks.onwards.go, ih]

theorem length_or (h : marks.length = text.length + 1) (ho : others.length = text.length + 1) :
    (marks.or others).length = text.length + 1 := by
  simp [Marks.or, h, ho]

theorem length_overDirectories (h : marks.length = text.length + 1) :
    (marks.overDirectories text).length = text.length + 1 :=
  length_or h (length_over ((length_go _ _).trans h))

theorem length_foldl (h : marks.length = text.length + 1) :
    (bytes.foldl (fun marks byte => marks.overByte byte text) marks).length = text.length + 1 := by
  induction bytes generalizing marks with
  | nil => exact h
  | cons byte bytes ih => exact ih (length_over h)

mutual

/-- **Moving over a token changes the marks, not their number.** -/
theorem length_move (text : List UInt8) {marks : Marks} (h : marks.length = text.length + 1) :
    (token : Token) → (move text marks token).length = text.length + 1
  | .literal _ => by rw [move]; exact length_foldl h
  | .anyByte => by rw [move]; exact length_over h
  | .anyBytes => by rw [move]; exact (length_go _ _).trans h
  | .directoriesBefore => by rw [move]; exact length_overDirectories h
  | .allBelow => by rw [move]; exact (length_go _ _).trans (length_over h)
  | .directoriesBetween => by rw [move]; exact length_overDirectories (length_over h)
  | .byteIn _ _ => by rw [move]; exact length_over h
  | .oneOf branches => by
    rw [move]
    split
    · exact h
    · exact length_moveOverAny text h branches

theorem length_moveOverAny (text : List UInt8) {marks : Marks}
    (h : marks.length = text.length + 1) :
    (branches : List (List Token)) → (moveOverAny text marks branches).length = text.length + 1
  | [] => by rw [moveOverAny, Marks.none, List.length_replicate]
  | branch :: branches => by
    rw [moveOverAny]
    split
    · exact length_moveOverAny text h branches
    · exact length_or (length_moveOverAll text h branch) (length_moveOverAny text h branches)

theorem length_moveOverAll (text : List UInt8) {marks : Marks}
    (h : marks.length = text.length + 1) :
    (tokens : List Token) → (moveOverAll text marks tokens).length = text.length + 1
  | [] => h
  | token :: tokens => by
    rw [moveOverAll]
    exact length_moveOverAll text (length_move text h token) tokens

end

/-! ### Marks that have moved over bytes -/

/-- A mark that has moved over a byte was in front of it. -/
theorem exists_of_over (h : (marks.over passes text)[i]? = some true) :
    ∃ j byte, i = j + 1 ∧ text[j]? = some byte ∧ passes byte = true ∧ marks[j]? = some true := by
  cases i with
  | zero => cases h
  | succ j =>
    rw [Marks.over, List.getElem?_cons_succ, List.getElem?_zipWith] at h
    cases hm : marks[j]? with
    | none => simp [hm] at h
    | some marked =>
      cases hb : text[j]? with
      | none => simp [hm, hb] at h
      | some byte =>
        simp only [hm, hb, Option.some.injEq, Bool.and_eq_true] at h
        exact ⟨j, byte, rfl, hb, h.2, by rw [hm, h.1]⟩

/-- **Marks that have moved over bytes have these bytes behind them.** -/
theorem exists_of_foldl
    (h : (bytes.foldl (fun marks byte => marks.overByte byte text) marks)[i]? = some true) :
    ∃ start, text.take i = text.take start ++ bytes ∧ marks[start]? = some true := by
  -- from the last byte backwards
  induction bytes using List.reverseRecOn generalizing i with
  | nil => exact ⟨i, (List.append_nil _).symm, h⟩
  | append_singleton bytes byte ih =>
    rw [List.foldl_append] at h
    obtain ⟨j, other, rfl, hbyte, hsame, hmark⟩ := exists_of_over h
    obtain ⟨start, htake, hstart⟩ := ih hmark
    refine ⟨start, ?_, hstart⟩
    obtain rfl : other = byte := by simpa using hsame
    rw [List.take_add_one, hbyte, htake, List.append_assoc]
    rfl

/-- Moving over signs is moving over their bytes. -/
theorem moveOverAll_literals (marks : Marks) (text : List UInt8) (signs : List Char) :
    moveOverAll text marks (signs.map .literal) =
      (signs.flatMap bytesOf).foldl (fun marks byte => marks.overByte byte text) marks := by
  induction signs generalizing marks with
  | nil => rfl
  | cons sign signs ih =>
    rw [List.map_cons, moveOverAll, ih, List.flatMap_cons, List.foldl_append, move]

theorem of_or (h : (marks.or others)[i]? = some true) :
    marks[i]? = some true ∨ others[i]? = some true := by
  rw [Marks.or, List.getElem?_zipWith] at h
  cases hm : marks[i]? with
  | none => simp [hm] at h
  | some marked =>
    cases ho : others[i]? with
    | none => simp [hm, ho] at h
    | some other => simpa [hm, ho] using h

/-- A mark that has moved over one of several endings has it behind it. -/
theorem exists_of_endings {endings : List (List Char)}
    (h : (moveOverAny text marks (endings.map (·.map .literal)))[i]? = some true) :
    ∃ ending ∈ endings, ∃ start, text.take i = text.take start ++ ending.flatMap bytesOf ∧
      marks[start]? = some true := by
  induction endings with
  | nil =>
    rw [List.map_nil, moveOverAny, Marks.none, List.getElem?_replicate] at h
    split at h <;> cases h
  | cons ending endings ih =>
    rw [List.map_cons, moveOverAny] at h
    split at h
    · obtain ⟨other, ho, hother⟩ := ih h
      exact ⟨other, List.mem_cons_of_mem _ ho, hother⟩
    · rcases of_or h with h | h
      · rw [moveOverAll_literals] at h
        exact ⟨ending, List.mem_cons_self, exists_of_foldl h⟩
      · obtain ⟨other, ho, hother⟩ := ih h
        exact ⟨other, List.mem_cons_of_mem _ ho, hother⟩

/-! ### The glob for sources -/

/-- The endings that the glob for sources asks for, behind the last dot. -/
def endings : List (List Char) :=
  [['v', 'u', 'e'], ['c', 's', 's'], ['s', 'c', 's', 's'], ['l', 'e', 's', 's']]

/-- The glob for sources. -/
def sources : Glob :=
  ⟨[.directoriesBefore, .anyBytes, .literal '.', .oneOf (endings.map (·.map .literal))]⟩

theorem toList_defaultGlob : defaultGlob.toList = ['*', '*', '/', '*', '.', '\x7b', 'v', 'u', 'e',
    ',', 'c', 's', 's', ',', 's', 'c', 's', 's', ',', 'l', 'e', 's', 's', '\x7d'] := by
  decide

theorem parse_defaultGlob : parse defaultGlob = .ok sources := by
  have htokens : tokensFrom 25 [] {} none defaultGlob.toList = .ok sources.tokens := by
    rw [toList_defaultGlob]
    simp [tokensFrom, doubleStar, Group.push, Group.branch, Group.close, sources, endings, pure,
      Except.pure]
  have hlength : defaultGlob.length + 1 = 25 := by
    rw [← String.length_toList, toList_defaultGlob]
    rfl
  have hheight : Glob.height sources ≤ heightLimit := by decide
  rw [parse, hlength, htokens]
  exact if_pos hheight

/-- **A path that the glob for sources accepts has one of its endings.** -/
theorem ends_of_accepts {path : String} (h : sources.accepts path = true) :
    ∃ ending ∈ endings, ∃ front, path.toUTF8.data.toList = front ++ ending.flatMap bytesOf := by
  have hmoved : (moveOverAll path.toUTF8.data.toList (Marks.first path.toUTF8.data.toList)
      sources.tokens).getLastD false = true := h
  have hfirst : (Marks.first path.toUTF8.data.toList).length =
      path.toUTF8.data.toList.length + 1 := by
    simp [Marks.first]
  have hlength := length_moveOverAll path.toUTF8.data.toList hfirst sources.tokens
  generalize path.toUTF8.data.toList = text at hmoved hlength ⊢
  -- the last mark stands behind the whole text
  have hlast : (moveOverAll text (Marks.first text) sources.tokens)[text.length]? = some true := by
    rw [List.getLastD_eq_getLast?, List.getLast?_eq_getElem?, hlength, Nat.add_sub_cancel] at hmoved
    cases hm : (moveOverAll text (Marks.first text) sources.tokens)[text.length]? with
    | none => simp [hm] at hmoved
    | some marked => simpa [hm] using hmoved
  have hvoid : areVoid (endings.map (·.map .literal)) = false := by decide
  simp only [sources, moveOverAll, move, hvoid, Bool.false_eq_true, if_false] at hlast
  obtain ⟨ending, he, start, htake, -⟩ := exists_of_endings hlast
  rw [List.take_length] at htake
  exact ⟨ending, he, text.take start, htake⟩

/-- Endings of paths that are no sources. -/
def otherEndings : List String :=
  [".json", ".log", "backups"]

/-- **A path with another ending is not accepted.** -/
theorem not_accepts_of_tail {path front tail : String} (ht : tail ∈ otherEndings)
    (hp : path = front ++ tail) : sources.accepts path = false := by
  rw [Bool.eq_false_iff]
  intro h
  obtain ⟨ending, he, rest, hbytes⟩ := ends_of_accepts h
  have happend : path.toUTF8.data.toList = front.toUTF8.data.toList ++ tail.toUTF8.data.toList := by
    rw [hp]
    simp
  rw [happend] at hbytes
  -- the last two bytes tell the endings apart
  have hlast := congrArg (·.reverse.take 2) hbytes
  simp only [List.reverse_append] at hlast
  have htail : ∀ tail ∈ otherEndings, 2 ≤ tail.toUTF8.data.toList.reverse.length := by decide
  have hending : ∀ ending ∈ endings, 2 ≤ (ending.flatMap bytesOf).reverse.length := by decide
  rw [List.take_append_of_le_length (htail tail ht),
    List.take_append_of_le_length (hending ending he)] at hlast
  have hapart : ∀ tail ∈ otherEndings, ∀ ending ∈ endings,
      tail.toUTF8.data.toList.reverse.take 2 ≠ (ending.flatMap bytesOf).reverse.take 2 := by decide
  exact hapart tail ht ending he hlast

end StyleTokens.Glob

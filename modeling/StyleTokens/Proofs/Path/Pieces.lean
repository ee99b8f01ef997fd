/-
The pieces of a path, the path in plain form, and paths below a root.

A path is a text; a walk along it sees the pieces between its slashes.  Single dots
and the pieces of repeated slashes lead nowhere, and the plain form of a path is
the text without them.

* `pieces_join` — texts without slashes are the pieces of their joined text;
* `stretches_plain` — the pieces of the plain form are those of the path that lead
  somewhere, after an empty one if the path is absolute;
* `plain_sublist` — the plain form is the path with characters left out;
* `lead`, `toList_under` — what the text of a path below a root starts with;
* `stretches_under` — the pieces of a path below a root end with those of the path;
* `moves_under`, `isAbsolute_under` — where the path leads;
* `under_plain_sublist` — below the plain form of the root the text is no longer.

Design notes: the bare root has the empty text for its plain form, and what is below
that is relative.  A root that is absolute has to lead somewhere, therefore.
-/
import Mathlib.Data.List.Basic
import StyleTokens.Path

namespace StyleTokens

namespace Path

/-- The pieces of a path as texts. -/
def stretches (path : Path) : List String :=
  (pieces path.text.toList).map String.ofList

/-- Where the walk along a path begins when it is seen from a place. -/
def origin (path : Path) (place : List String) : List String :=
  if path.isAbsolute then [] else place

/-- A piece that leads nowhere else. -/
def IsIdle (piece : String) : Prop :=
  piece = "" ∨ piece = "."

instance (piece : String) : Decidable (IsIdle piece) :=
  inferInstanceAs (Decidable (_ ∨ _))

theorem pieces_ne_nil (text : List Char) : pieces text ≠ [] := by
  cases text with
  | nil => simp [pieces]
  | cons c rest =>
    rw [pieces]
    split
    · simp
    · split <;> simp

theorem pieces_cons_of_ne {c : Char} (h : c ≠ '/') (rest : List Char) :
    ∃ piece others, pieces rest = piece :: others ∧
      pieces (c :: rest) = (c :: piece) :: others := by
  rw [pieces, if_neg h]
  cases hp : pieces rest with
  | nil => exact absurd hp (pieces_ne_nil rest)
  | cons piece others => exact ⟨piece, others, rfl, rfl⟩

theorem length_pieces_le (text : List Char) : (pieces text).length ≤ text.length + 1 := by
  induction text with
  | nil => simp [pieces]
  | cons c rest ih =>
    by_cases h : c = '/'
    · rw [pieces, if_pos h]
      simpa using ih
    · obtain ⟨piece, others, hr, hc⟩ := pieces_cons_of_ne h rest
      rw [hc]
      rw [hr] at ih
      simp only [List.length_cons] at ih ⊢
      omega

/-- Pieces hold no slash. -/
theorem slash_not_mem_of_mem_pieces {text piece : List Char} (h : piece ∈ pieces text) :
    '/' ∉ piece := by
  induction text generalizing piece with
  | nil => simp_all [pieces]
  | cons c rest ih =>
    by_cases hc : c = '/'
    · rw [pieces, if_pos hc] at h
      rcases List.mem_cons.1 h with rfl | h
      · simp
      · exact ih h
    · obtain ⟨first, others, hr, heq⟩ := pieces_cons_of_ne hc rest
      rw [heq] at h
      rw [hr] at ih
      rcases List.mem_cons.1 h with rfl | h
      · have := ih List.mem_cons_self
        simp only [List.mem_cons, not_or]
        exact ⟨fun h => hc h.symm, this⟩
      · exact ih (List.mem_cons_of_mem _ h)

/-- A text before a slash is a piece of its own. -/
theorem pieces_append_slash {piece : List Char} (h : '/' ∉ piece) (rest : List Char) :
    pieces (piece ++ '/' :: rest) = piece :: pieces rest := by
  induction piece with
  | nil => simp [pieces]
  | cons c tail ih =>
    simp only [List.mem_cons, not_or] at h
    obtain ⟨first, others, hr, heq⟩ :=
      pieces_cons_of_ne (fun hc => h.1 hc.symm) (tail ++ '/' :: rest)
    rw [ih h.2] at hr
    obtain ⟨rfl, rfl⟩ := List.cons.inj hr
    exact heq

theorem pieces_of_free {text : List Char} (h : '/' ∉ text) : pieces text = [text] := by
  induction text with
  | nil => rfl
  | cons c rest ih =>
    simp only [List.mem_cons, not_or] at h
    obtain ⟨first, others, hr, heq⟩ := pieces_cons_of_ne (fun hc => h.1 hc.symm) rest
    rw [ih h.2] at hr
    obtain ⟨rfl, rfl⟩ := List.cons.inj hr
    exact heq

/-- **Texts without slashes are the pieces of their joined text.** -/
theorem pieces_join {texts : List (List Char)} (hne : texts ≠ [])
    (h : ∀ text ∈ texts, '/' ∉ text) : pieces (['/'].intercalate texts) = texts := by
  induction texts with
  | nil => exact absurd rfl hne
  | cons first others ih =>
    cases others with
    | nil => simpa using pieces_of_free (h first List.mem_cons_self)
    | cons second rest =>
      have hjoin : ['/'].intercalate (first :: second :: rest) =
          first ++ '/' :: ['/'].intercalate (second :: rest) := by
        simp [List.intercalate, List.intersperse]
      rw [hjoin, pieces_append_slash (h first List.mem_cons_self),
        ih (by simp) fun text ht => h text (List.mem_cons_of_mem _ ht)]

/-- A path is its pieces, joined. -/
theorem join_pieces (text : List Char) : ['/'].intercalate (pieces text) = text := by
  induction text with
  | nil => rfl
  | cons c rest ih =>
    by_cases hc : c = '/'
    · subst hc
      rw [pieces, if_pos rfl]
      obtain ⟨piece, others, hp⟩ := List.exists_cons_of_ne_nil (pieces_ne_nil rest)
      rw [hp] at ih ⊢
      rw [List.intercalate_cons_cons, ih]
      rfl
    · obtain ⟨piece, others, hr, heq⟩ := pieces_cons_of_ne hc rest
      rw [heq]
      rw [hr] at ih
      cases others with
      | nil => simpa using ih
      | cons second others =>
        rw [List.intercalate_cons_cons] at ih ⊢
        rw [List.cons_append, List.cons_append, ih]

/-- Leaving pieces out leaves characters out. -/
theorem join_sublist {some all : List (List Char)} (h : some.Sublist all) :
    (['/'].intercalate some).Sublist (['/'].intercalate all) := by
  induction h with
  | slnil => simp
  | @cons some all piece h ih =>
    cases all with
    | nil =>
      rw [List.sublist_nil.1 h]
      simp
    | cons second rest =>
      rw [List.intercalate_cons_cons]
      exact ih.trans (List.sublist_append_right _ _)
  | @cons_cons some all piece h ih =>
    cases all with
    | nil =>
      obtain rfl := List.sublist_nil.1 h
      exact List.Sublist.refl _
    | cons second rest =>
      rw [List.intercalate_cons_cons]
      cases some with
      | nil =>
        rw [List.append_assoc]
        simp
      | cons first others =>
        rw [List.intercalate_cons_cons]
        exact (List.Sublist.refl _).append ih

theorem pieces_concat_slash (text : List Char) : pieces (text ++ ['/']) = pieces text ++ [[]] := by
  induction text with
  | nil => rfl
  | cons c rest ih =>
    by_cases hc : c = '/'
    · rw [List.cons_append, pieces, if_pos hc, ih, pieces, if_pos hc, List.cons_append]
    · obtain ⟨piece, others, hr, heq⟩ := pieces_cons_of_ne hc rest
      rw [List.cons_append, pieces, if_neg hc, ih, heq, hr]
      rfl

/-! ### The plain form -/

/-- The pieces of a path that lead somewhere. -/
def moves (path : Path) : List String :=
  path.stretches.filter fun piece => ¬ IsIdle piece

/-- Slashes at the end of a path lead nowhere. -/
theorem moves_append_slashes (text : List Char) (count : Nat) :
    moves ⟨String.ofList (text ++ List.replicate count '/')⟩ = moves ⟨String.ofList text⟩ := by
  induction count with
  | zero => rw [List.replicate_zero, List.append_nil]
  | succ count ih =>
    rw [List.replicate_succ', ← List.append_assoc, ← ih]
    simp only [moves, stretches, String.toList_ofList, pieces_concat_slash]
    simp [IsIdle]

/-- The part that a piece stands for has the piece for its text; idle pieces stand for
none. -/
theorem text_part? (piece : List Char) :
    (part? piece).map Part.text =
      if IsIdle (String.ofList piece) then none else some (String.ofList piece) := by
  by_cases he : piece = []
  · subst he
    rfl
  · by_cases hd : piece = ['.']
    · subst hd
      rfl
    · have hidle : ¬ IsIdle (String.ofList piece) := by
        rintro (h | h)
        · exact he (by simpa using congrArg String.toList h)
        · exact hd (by simpa using congrArg String.toList h)
      rw [if_neg hidle, part?, if_neg (by simp [he, hd])]
      split
      · next h =>
        rw [h]
        rfl
      · rfl

/-- The texts of the parts of a path: an empty one for the root, then the moves. -/
theorem texts_parts (path : Path) :
    (path.parts.filter (· ≠ .here)).map Part.text =
      (if path.isAbsolute then [""] else []) ++ path.moves := by
  have hnamed : ∀ all : List (List Char),
      (((all.filterMap part?).filter (· ≠ .here)).map Part.text) =
        (all.map String.ofList).filter fun piece => ¬ IsIdle piece := by
    intro all
    induction all with
    | nil => rfl
    | cons piece others ih =>
      have ht := text_part? piece
      rw [List.filterMap_cons, List.map_cons, List.filter_cons]
      by_cases hidle : IsIdle (String.ofList piece)
      · rw [if_pos hidle, Option.map_eq_none_iff] at ht
        rw [ht, if_neg (by simpa using hidle)]
        exact ih
      · rw [if_neg hidle, Option.map_eq_some_iff] at ht
        obtain ⟨part, hp, ht⟩ := ht
        have hhere : part ≠ .here := by
          rintro rfl
          exact hidle (ht ▸ Or.inr rfl)
        rw [hp, if_pos (by simpa using hidle), ← ih, ← ht]
        simp [hhere]
  rw [parts]
  split
  · rw [List.filter_cons, if_pos (by simp), List.map_cons, hnamed]
    rfl
  · split
    · rw [List.filter_cons, if_neg (by simp), hnamed]
      rfl
    · rw [hnamed]
      rfl

/-- The pieces of the plain form. -/
theorem stretches_plain (path : Path) (h : path.isAbsolute = true ∨ path.moves ≠ []) :
    stretches ⟨path.plain⟩ = (if path.isAbsolute then [""] else []) ++ path.moves := by
  have hne : ((if path.isAbsolute then [""] else []) ++ path.moves).map String.toList ≠ [] := by
    rcases h with h | h <;> simp [h]
  have hfree : ∀ text ∈ ((if path.isAbsolute then [""] else []) ++ path.moves).map String.toList,
      '/' ∉ text := by
    intro text ht
    obtain ⟨piece, hp, rfl⟩ := List.mem_map.1 ht
    rcases List.mem_append.1 hp with hp | hp
    · split at hp <;> simp_all
    · obtain ⟨other, ho, rfl⟩ := List.mem_map.1 (List.mem_filter.1 hp).1
      rw [String.toList_ofList]
      exact slash_not_mem_of_mem_pieces ho
  rw [stretches, plain, texts_parts, String.toList_intercalate]
  show (pieces (['/'].intercalate _)).map String.ofList = _
  rw [pieces_join hne hfree, List.map_map]
  simp [Function.comp_def]

theorem isAbsolute_iff {path : Path} :
    path.isAbsolute = true ↔ ∃ rest, path.text.toList = '/' :: rest := by
  rw [isAbsolute, beq_iff_eq]
  cases path.text.toList with
  | nil => simp
  | cons c rest => simp

/-- The plain form begins at the root if the path does. -/
theorem isAbsolute_plain {path : Path} (h : path.moves ≠ []) :
    isAbsolute ⟨path.plain⟩ = path.isAbsolute := by
  obtain ⟨first, others, hm⟩ := List.exists_cons_of_ne_nil h
  have hfirst : first ∈ path.moves := hm ▸ List.mem_cons_self
  have htext : path.plain.toList = ['/'].intercalate
      (((if path.isAbsolute then [""] else []) ++ path.moves).map String.toList) := by
    rw [plain, texts_parts, String.toList_intercalate]
    rfl
  rw [Bool.eq_iff_iff, isAbsolute_iff]
  show (∃ rest, path.plain.toList = '/' :: rest) ↔ _
  rw [htext, hm]
  by_cases ha : path.isAbsolute = true
  · simp [ha, List.intercalate_cons_cons]
  · have hne : first ≠ "" := fun he => by
      have := (List.mem_filter.1 hfirst).2
      simp [IsIdle, he] at this
    have hfree : '/' ∉ first.toList := by
      obtain ⟨piece, hp, rfl⟩ := List.mem_map.1 (List.mem_filter.1 hfirst).1
      rw [String.toList_ofList]
      exact slash_not_mem_of_mem_pieces hp
    cases hc : first.toList with
    | nil => exact absurd (by simpa using hc) hne
    | cons c tail =>
      rw [hc] at hfree
      have hslash : c ≠ '/' := fun he => hfree (he ▸ List.mem_cons_self)
      cases others with
      | nil => simp [ha, hc, hslash]
      | cons second rest => simp [ha, hc, hslash, List.intercalate_cons_cons]

/-- The plain form has no characters of its own. -/
theorem plain_sublist (path : Path) : path.plain.toList.Sublist path.text.toList := by
  have hpieces : ((if path.isAbsolute then [""] else []) ++ path.moves).Sublist path.stretches := by
    split
    · next h =>
      -- an absolute path begins with an empty piece, which no move is
      obtain ⟨rest, hrest⟩ := isAbsolute_iff.1 h
      have hs : path.stretches = "" :: (pieces rest).map String.ofList := by
        rw [stretches, hrest, pieces, if_pos rfl]
        rfl
      rw [moves, hs, List.filter_cons, if_neg (by simp [IsIdle])]
      exact (List.filter_sublist).cons_cons _
    · exact List.filter_sublist
  have hjoin := join_sublist (hpieces.map String.toList)
  rw [plain, texts_parts, String.toList_intercalate]
  have hall : path.stretches.map String.toList = pieces path.text.toList := by
    simp [stretches, Function.comp_def]
  rw [hall, join_pieces] at hjoin
  exact hjoin

/-! ### Below a root -/

variable {base path : Path}

theorem pieces_append_cons (text rest : List Char) :
    pieces (text ++ '/' :: rest) = pieces text ++ pieces rest := by
  induction text with
  | nil => exact if_pos rfl
  | cons c text ih =>
    by_cases hc : c = '/'
    · rw [List.cons_append, pieces, if_pos hc, ih, pieces, if_pos hc, List.cons_append]
    · obtain ⟨piece, others, hr, heq⟩ := pieces_cons_of_ne hc text
      rw [List.cons_append, pieces, if_neg hc, ih, hr, heq]
      rfl

/-- What the paths below a root start with: the root, and a slash unless it ends with one
or is empty. -/
def lead (base : Path) : List Char :=
  if base.text = "" ∨ base.text.toList.getLast? = some '/' then base.text.toList
  else base.text.toList ++ ['/']

theorem toList_under (base : Path) (h : path.isAbsolute = false) :
    (base.under path).text.toList = base.lead ++ path.text.toList := by
  rw [under, if_neg (by simp [h]), join, if_neg (by simp [h]), lead]
  by_cases hends : base.text = "" ∨ base.text.toList.getLast? = some '/'
  · rw [if_pos (by simpa using hends), if_pos hends, String.toList_append]
  · rw [if_neg (by simpa using hends), if_neg hends]
    simp

theorem lead_of_empty (h : base.text = "") : base.lead = [] := by
  rw [lead, if_pos (Or.inl h), h]
  rfl

theorem lead_eq_concat (h : base.text ≠ "") :
    ∃ front, base.lead = front ++ ['/'] ∧
      (base.text.toList = front ++ ['/'] ∨ base.text.toList = front) := by
  by_cases hslash : base.text.toList.getLast? = some '/'
  · obtain ⟨front, hfront⟩ := List.getLast?_eq_some_iff.1 hslash
    refine ⟨front, ?_, Or.inl hfront⟩
    rw [lead, if_pos (Or.inr hslash), hfront]
  · refine ⟨base.text.toList, ?_, Or.inr rfl⟩
    rw [lead, if_neg (by simp [h, hslash])]

theorem prefix_lead (base : Path) : base.text.toList <+: base.lead := by
  rw [lead]
  split
  · exact List.prefix_refl _
  · exact List.prefix_append _ _

theorem moves_of_text {text : List Char} (h : path.text.toList = text) :
    path.moves = ((pieces text).map String.ofList).filter fun piece => ¬ IsIdle piece := by
  rw [moves, stretches, h]

/-- **The pieces of a path below a root** are those that the root leads along, and those of
the path. -/
theorem stretches_under (base : Path) (h : path.isAbsolute = false) :
    ∃ front, (base.under path).stretches = front ++ path.stretches ∧
      front.filter (fun piece => ¬ IsIdle piece) = base.moves := by
  by_cases he : base.text = ""
  · refine ⟨[], ?_, ?_⟩
    · rw [stretches, toList_under base h, lead_of_empty he]
      rfl
    · rw [moves_of_text (by rw [he])]
      rfl
  · obtain ⟨front, hlead, hbase⟩ := lead_eq_concat he
    refine ⟨(pieces front).map String.ofList, ?_, ?_⟩
    · rw [stretches, toList_under base h, hlead, List.append_assoc, List.singleton_append,
        pieces_append_cons, List.map_append]
      rfl
    · rcases hbase with hslash | hplain
      · rw [moves_of_text hslash, pieces_concat_slash, List.map_append, List.filter_append]
        simp [IsIdle]
      · rw [moves_of_text hplain]

theorem moves_under (base : Path) (h : path.isAbsolute = false) :
    (base.under path).moves = base.moves ++ path.moves := by
  obtain ⟨front, hunder, hfront⟩ := stretches_under base h
  rw [moves, hunder, List.filter_append, hfront]
  rfl

theorem isAbsolute_under (base : Path) (h : path.isAbsolute = false) :
    (base.under path).isAbsolute = base.isAbsolute := by
  rw [isAbsolute, isAbsolute, toList_under base h]
  cases htext : base.text.toList with
  | nil =>
    rw [lead_of_empty (String.toList_eq_nil_iff.1 htext), List.nil_append]
    exact h
  | cons c rest =>
    obtain ⟨tail, htail⟩ := prefix_lead base
    rw [← htail, htext]
    rfl

/-! ### The plain form of a root -/

/-- A path whose plain form leads where the path does: not the bare root. -/
def Lasts (path : Path) : Prop :=
  path.isAbsolute = true → path.moves ≠ []

theorem moves_plain (path : Path) : moves ⟨path.plain⟩ = path.moves := by
  by_cases h : path.isAbsolute = true ∨ path.moves ≠ []
  · rw [moves, stretches_plain path h]
    split <;> simp [moves, IsIdle]
  · obtain ⟨habs, hmoves⟩ := not_or.1 h
    have hplain : path.plain = "" := by
      rw [plain, texts_parts, if_neg habs, Decidable.not_not.1 hmoves]
      rfl
    rw [hplain, Decidable.not_not.1 hmoves]
    rfl

theorem Lasts.isAbsolute_plain (h : path.Lasts) : isAbsolute ⟨path.plain⟩ = path.isAbsolute := by
  by_cases hmoves : path.moves = []
  · have habs : ¬ path.isAbsolute = true := fun habs => h habs hmoves
    rw [plain, texts_parts, if_neg habs, hmoves, Bool.eq_false_iff.2 habs]
    rfl
  · exact Path.isAbsolute_plain hmoves

/-- Below the plain form of a root the way is that below the root. -/
theorem under_plain_spec (h : base.Lasts) (path : Path) :
    (under ⟨base.plain⟩ path).isAbsolute = (base.under path).isAbsolute ∧
      (under ⟨base.plain⟩ path).moves = (base.under path).moves := by
  cases habs : path.isAbsolute with
  | true => rw [under, under, if_pos habs, if_pos habs]; exact ⟨rfl, rfl⟩
  | false =>
    rw [isAbsolute_under _ habs, isAbsolute_under _ habs, h.isAbsolute_plain, moves_under _ habs,
      moves_under _ habs, moves_plain]
    exact ⟨rfl, rfl⟩

theorem sublist_of_concat {some all : List Char} {c : Char} (h : some.Sublist (all ++ [c]))
    (hlast : some.getLast? ≠ Option.some c) : some.Sublist all := by
  obtain ⟨first, second, rfl, hfirst, hsecond⟩ := List.sublist_append_iff.1 h
  rcases List.sublist_cons_iff.1 hsecond with hnil | ⟨rest, rfl, hnil⟩
  · rwa [List.sublist_nil.1 hnil, List.append_nil]
  · rw [List.sublist_nil.1 hnil] at hlast
    exact absurd List.getLast?_concat hlast

/-- A shorter root leads with no characters of its own. -/
theorem lead_sublist {short : Path} (h : short.text.toList.Sublist base.text.toList) :
    short.lead.Sublist base.lead := by
  by_cases he : short.text = ""
  · rw [lead_of_empty he]
    exact List.nil_sublist _
  by_cases hslash : short.text.toList.getLast? = some '/'
  · rw [lead, if_pos (Or.inr hslash)]
    exact h.trans (prefix_lead base).sublist
  have hbase : base.text ≠ "" := by
    intro hnone
    rw [hnone] at h
    exact he (String.toList_eq_nil_iff.1 (List.sublist_nil.1 h))
  obtain ⟨front, hlead, hfront⟩ := lead_eq_concat hbase
  rw [lead, if_neg (by simp [he, hslash]), hlead]
  refine List.Sublist.append ?_ (List.Sublist.refl _)
  rcases hfront with hfront | hfront
  · rw [hfront] at h
    exact sublist_of_concat h hslash
  · rwa [hfront] at h

/-- Below the plain form of the root, there are no characters of its own either. -/
theorem under_plain_sublist (base path : Path) :
    (under ⟨base.plain⟩ path).text.toList.Sublist (base.under path).text.toList := by
  cases h : path.isAbsolute with
  | true => rw [under, under, if_pos h, if_pos h]
  | false =>
    rw [toList_under _ h, toList_under _ h]
    exact (lead_sublist (plain_sublist base)).append (List.Sublist.refl _)

end Path

end StyleTokens

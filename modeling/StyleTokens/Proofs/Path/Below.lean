/-
Paths below a directory.

* `IsLabel` — a text that names something by itself;
* `labels` — the names along a path, and `labels_eq_moves` — there is nothing else where it
  does not go up;
* `moves_counterpart` — the counterpart of a file below a directory has its names;
* `Alike` — two spellings of one way;
* `Spelled` — a path in the form of the listings, `Spelled.labels_eq_iff` — which the names
  tell but for the slash in front;
* `ne_up_of_relativeTo?` — what lies below a root, seen from there, goes up nowhere.
-/
import StyleTokens.Proofs.Path.Parent
import StyleTokens.Vault.Basic

namespace StyleTokens.Path

variable {path other base : Path} {name file : String} {names : List String}
  {target rest : List Part}

/-! ### Names -/

/-- A text that names something by itself. -/
structure IsLabel (name : String) : Prop where
  not_idle : ¬ IsIdle name
  ne_up : name ≠ ".."
  no_slash : '/' ∉ name.toList

instance (name : String) : Decidable (IsLabel name) :=
  decidable_of_iff (¬ IsIdle name ∧ name ≠ ".." ∧ '/' ∉ name.toList)
    ⟨fun ⟨hi, hu, hs⟩ => ⟨hi, hu, hs⟩, fun h => ⟨h.not_idle, h.ne_up, h.no_slash⟩⟩

namespace IsLabel

theorem ne_empty (h : IsLabel name) : name ≠ "" :=
  fun he => h.not_idle (Or.inl he)

theorem stretches (h : IsLabel name) : Path.stretches ⟨name⟩ = [name] := by
  rw [Path.stretches, pieces_of_free h.no_slash, List.map_singleton, String.ofList_toList]

theorem moves (h : IsLabel name) : Path.moves ⟨name⟩ = [name] := by
  rw [Path.moves, h.stretches]
  simp [h.not_idle]

theorem isAbsolute (h : IsLabel name) : Path.isAbsolute ⟨name⟩ = false := by
  refine Bool.eq_false_iff.2 fun habs => ?_
  obtain ⟨next, rest, heq⟩ := isAbsolute_iff_stretches.1 habs
  rw [h.stretches] at heq
  cases heq

end IsLabel

/-- Names joined by slashes are the moves along the way. -/
theorem stretches_intercalate (hne : names ≠ []) (h : ∀ name ∈ names, IsLabel name) :
    stretches ⟨"/".intercalate names⟩ = names := by
  rw [stretches, String.toList_intercalate]
  show (pieces (['/'].intercalate _)).map String.ofList = _
  rw [pieces_join (by simpa using hne), List.map_map]
  · simp [Function.comp_def]
  · intro text ht
    obtain ⟨name, hn, rfl⟩ := List.mem_map.1 ht
    exact (h name hn).no_slash

theorem moves_intercalate (h : ∀ name ∈ names, IsLabel name) :
    moves ⟨"/".intercalate names⟩ = names := by
  by_cases hne : names = []
  · subst hne
    rfl
  · rw [moves, stretches_intercalate hne h, List.filter_eq_self]
    exact fun name hn => by simpa using (h name hn).not_idle

theorem isAbsolute_intercalate (h : ∀ name ∈ names, IsLabel name) :
    isAbsolute ⟨"/".intercalate names⟩ = false := by
  by_cases hne : names = []
  · subst hne
    rfl
  · refine Bool.eq_false_iff.2 fun habs => ?_
    obtain ⟨next, rest, heq⟩ := isAbsolute_iff_stretches.1 habs
    rw [stretches_intercalate hne h] at heq
    exact (h "" (heq ▸ List.mem_cons_self)).ne_empty rfl

/-- What a piece is called that stands for a name. -/
theorem isLabel_of_mem_parts (h : .name name ∈ path.parts) : IsLabel name := by
  have hnamed (hmem : .name name ∈ (pieces path.text.toList).filterMap part?) : IsLabel name := by
    obtain ⟨piece, hpiece, hpart⟩ := List.mem_filterMap.1 hmem
    have htext := text_part? piece
    rw [hpart, Option.map_some] at htext
    split at htext
    · cases htext
    · next hidle =>
      obtain rfl : name = String.ofList piece := Option.some.inj htext
      refine ⟨hidle, fun hup => ?_, ?_⟩
      · obtain rfl : piece = ['.', '.'] := by simpa using congrArg String.toList hup
        cases hpart
      · rw [String.toList_ofList]
        exact slash_not_mem_of_mem_pieces hpiece
  rw [parts] at h
  split at h
  · exact hnamed (List.mem_of_ne_of_mem (by simp) h)
  · split at h
    · exact hnamed (List.mem_of_ne_of_mem (by simp) h)
    · exact hnamed h

/-- The names along a path. -/
def labels (path : Path) : List String :=
  path.parts.filterMap fun
    | .name text => some text
    | _ => none

theorem isLabel_of_mem_labels (h : name ∈ path.labels) : IsLabel name := by
  obtain ⟨part, hpart, heq⟩ := List.mem_filterMap.1 h
  cases part with
  | name text =>
    obtain rfl : text = name := Option.some.inj heq
    exact isLabel_of_mem_parts hpart
  | root | here | up => cases heq

/-- The names along a path are its moves but for those that go up. -/
theorem labels_eq_filter (path : Path) : path.labels = path.moves.filter (· ≠ ".." ) := by
  have hparts : ∀ all : List Part, (∀ name, .name name ∈ all → IsLabel name) →
      (all.filterMap fun
        | .name text => some text
        | _ => none) =
      ((all.map Part.text).filter fun piece => ¬ IsIdle piece).filter (· ≠ "..") := by
    intro all hall
    induction all with
    | nil => rfl
    | cons part all ih =>
      have hrest := ih fun name hn => hall name (List.mem_cons_of_mem _ hn)
      rw [List.filterMap_cons, List.map_cons, hrest]
      cases part with
      | root => simp [Part.text, IsIdle]
      | here => simp [Part.text, IsIdle]
      | up => simp [Part.text]
      | name text =>
        have hlabel := hall text List.mem_cons_self
        simp [Part.text, hlabel.not_idle, hlabel.ne_up]
  rw [labels, moves_eq_texts, hparts _ fun name hn => isLabel_of_mem_parts hn]

theorem labels_eq_moves (h : ".." ∉ path.moves) : path.labels = path.moves := by
  rw [labels_eq_filter, List.filter_eq_self]
  intro move hm
  simp only [ne_eq, decide_not, Bool.not_eq_true', decide_eq_false_iff_not]
  rintro rfl
  exact h hm

/-! ### Counterparts -/

theorem child_eq_under (base : Path) (h : IsLabel name) : base.child name = base.under ⟨name⟩ := by
  rw [child, under, if_neg (by simp [h.isAbsolute])]

theorem moves_child (base : Path) (h : IsLabel name) :
    (base.child name).moves = base.moves ++ [name] := by
  rw [child_eq_under base h, moves_under base h.isAbsolute, h.moves]

theorem isAbsolute_child (base : Path) (h : IsLabel name) :
    (base.child name).isAbsolute = base.isAbsolute := by
  rw [child_eq_under base h, isAbsolute_under base h.isAbsolute]

theorem foldl_child_spec (base : Path) (h : ∀ name ∈ names, IsLabel name) :
    (names.foldl child base).moves = base.moves ++ names ∧
      (names.foldl child base).isAbsolute = base.isAbsolute := by
  induction names generalizing base with
  | nil => exact ⟨(List.append_nil _).symm, rfl⟩
  | cons name names ih =>
    have hname := h name List.mem_cons_self
    obtain ⟨hmoves, habs⟩ := ih (base.child name) fun other ho => h other (List.mem_cons_of_mem _ ho)
    rw [List.foldl_cons, hmoves, habs, moves_child base hname, isAbsolute_child base hname,
      List.append_assoc]
    exact ⟨rfl, rfl⟩

/-- **The counterpart of a file** leads along its names from the directory on. -/
theorem moves_counterpart (base : Path) (file : String) :
    (base.counterpart file).moves = base.moves ++ labels ⟨file⟩ :=
  (foldl_child_spec base fun _ => isLabel_of_mem_labels).1

theorem isAbsolute_counterpart (base : Path) (file : String) :
    (base.counterpart file).isAbsolute = base.isAbsolute :=
  (foldl_child_spec base fun _ => isLabel_of_mem_labels).2

/-! ### Spellings -/

/-- Two spellings of one way: they start at one directory and make the same moves. -/
def Alike (path other : Path) : Prop :=
  path.isAbsolute = other.isAbsolute ∧ path.moves = other.moves

/-- A path in the form of the listings: the names between slashes and nothing else, and no
way up. -/
structure Spelled (file : String) : Prop where
  text_eq : file = "/".intercalate ((if isAbsolute ⟨file⟩ then [""] else []) ++ moves ⟨file⟩)
  ne_up : ".." ∉ moves ⟨file⟩

theorem Spelled.labels_eq (h : Spelled file) : labels ⟨file⟩ = moves ⟨file⟩ :=
  labels_eq_moves h.ne_up

theorem spelled_plain (h : ".." ∉ path.moves) : Spelled path.plain := by
  refine ⟨?_, by rwa [moves_plain]⟩
  rw [moves_plain]
  by_cases hmoves : path.moves = []
  · have hplain : path.plain = "" := by
      rw [plain, texts_parts, hmoves]
      split <;> rfl
    rw [hplain, hmoves]
    rfl
  · rw [isAbsolute_plain hmoves, ← texts_parts]
    rfl

theorem spelled_intercalate (h : ∀ name ∈ names, IsLabel name) :
    Spelled ("/".intercalate names) := by
  refine ⟨?_, ?_⟩
  · rw [isAbsolute_intercalate h, moves_intercalate h]
    rfl
  · rw [moves_intercalate h]
    exact fun hup => (h ".." hup).ne_up rfl

/-- A slash in front does not matter to the names. -/
theorem labels_slash (file : String) : labels ⟨"/" ++ file⟩ = labels ⟨file⟩ := by
  have hmoves : moves ⟨"/" ++ file⟩ = moves ⟨file⟩ := by
    have htext : ("/" ++ file).toList = '/' :: file.toList := by
      rw [String.toList_append]
      rfl
    rw [moves_of_text htext, pieces, if_pos rfl]
    simp [moves, stretches, IsIdle]
  rw [labels_eq_filter, labels_eq_filter, hmoves]

/-- **The names of a file tell it**, but for the slash in front. -/
theorem Spelled.labels_eq_iff {file other : String} (h : Spelled file) (ho : Spelled other) :
    labels ⟨file⟩ = labels ⟨other⟩ ↔ file = other ∨ file = "/" ++ other ∨ other = "/" ++ file := by
  have hslash : ∀ {file other : String}, Spelled file → Spelled other →
      moves ⟨file⟩ = moves ⟨other⟩ → isAbsolute ⟨file⟩ = true → isAbsolute ⟨other⟩ = false →
      file = "/" ++ other := by
    intro file other h ho hmoves habs hrel
    have htext := h.text_eq
    have hother := ho.text_eq
    rw [habs, hmoves] at htext
    rw [hrel] at hother
    cases hm : moves ⟨other⟩ with
    | nil =>
      -- the bare root has no spelling that is absolute
      rw [hm] at htext
      rw [show file = "" from htext] at habs
      cases habs
    | cons move moves =>
      rw [hm] at htext hother
      rw [htext, hother, ← String.toList_inj, String.toList_append, String.toList_intercalate,
        String.toList_intercalate]
      rfl
  constructor
  · intro heq
    rw [h.labels_eq, ho.labels_eq] at heq
    cases hf : isAbsolute ⟨file⟩ <;> cases hg : isAbsolute ⟨other⟩
    · refine Or.inl ?_
      rw [h.text_eq, ho.text_eq, hf, hg, heq]
    · exact Or.inr (Or.inr (hslash ho h heq.symm hg hf))
    · exact Or.inr (Or.inl (hslash h ho heq hf hg))
    · refine Or.inl ?_
      rw [h.text_eq, ho.text_eq, hf, hg, heq]
  · rintro (rfl | rfl | rfl)
    · rfl
    · exact labels_slash other
    · exact (labels_slash file).symm

/-! ### Seen from a root -/

/-- The way to what lies below a base is what comes behind it. -/
theorem way_eq_some {base : List Part} (hhere : Part.here ∉ base)
    (h : way false target base = some rest) (hup : rest.head? ≠ some .up) :
    target = base ++ rest := by
  induction base generalizing target with
  | nil =>
    cases target <;> exact Option.some.inj h
  | cons other base ih =>
    cases target with
    | nil =>
      obtain rfl : (other :: base).map (fun _ => Part.up) = rest := Option.some.inj h
      exact absurd rfl hup
    | cons part target =>
      rw [way] at h
      have hother : other ≠ .here := fun he => hhere (he ▸ List.mem_cons_self)
      by_cases hpart : part = other
      · rw [if_pos (by simp [hpart])] at h
        rw [hpart, ih (fun hm => hhere (List.mem_cons_of_mem _ hm)) h]
        rfl
      · rw [if_neg (by simp [hpart]), if_neg hother] at h
        split at h
        · cases h
        · obtain rfl := Option.some.inj h
          exact absurd rfl hup

theorem here_not_mem_parts (h : path.isAbsolute = true) : Part.here ∉ path.parts := by
  rw [parts, if_pos h]
  intro hm
  obtain ⟨piece, -, hpart⟩ := List.mem_filterMap.1 (List.mem_of_ne_of_mem (by simp) hm)
  have htext := text_part? piece
  rw [hpart, Option.map_some] at htext
  split at htext
  · cases htext
  · next hidle =>
    rw [← Option.some.inj htext] at hidle
    exact hidle (Or.inr rfl)

/-- A part that goes up is the only one of that text. -/
theorem eq_up_of_text {part : Part} (h : part ∈ path.parts) (ht : part.text = "..") :
    part = .up := by
  cases part with
  | up => rfl
  | name text => exact absurd ht (isLabel_of_mem_parts h).ne_up
  | root | here => exact absurd ht (by decide)

theorem ne_up_of_parts (h : Part.up ∉ path.parts) : ".." ∉ path.moves := by
  rw [moves_eq_texts]
  intro hm
  obtain ⟨part, hpart, ht⟩ := List.mem_map.1 (List.mem_filter.1 hm).1
  exact h (eq_up_of_text hpart ht ▸ hpart)

/-- A way goes up, or along parts of its target. -/
theorem mem_of_way {base : List Part} {moved : Bool} {part : Part}
    (h : way moved target base = some rest) (hp : part ∈ rest) : part ∈ target ∨ part = .up := by
  induction base generalizing moved target rest with
  | nil =>
    obtain rfl : target = rest := by cases moved <;> cases target <;> exact Option.some.inj h
    exact Or.inl hp
  | cons other base ih =>
    cases target with
    | nil =>
      obtain rfl : (other :: base).map (fun _ => Part.up) = rest := by
        cases moved <;> exact Option.some.inj h
      obtain ⟨-, -, rfl⟩ := List.mem_map.1 hp
      exact Or.inr rfl
    | cons first target =>
      rw [way] at h
      split at h
      · exact (ih h hp).imp_left (List.mem_cons_of_mem _)
      · split at h
        · obtain ⟨later, hlater, rfl⟩ := Option.map_eq_some_iff.1 h
          rcases List.mem_cons.1 hp with rfl | hp
          · exact Or.inl List.mem_cons_self
          · exact (ih hlater hp).imp_left (List.mem_cons_of_mem _)
        · split at h
          · cases h
          · obtain rfl := Option.some.inj h
            rcases List.mem_append.1 hp with hp | hp
            · rcases List.mem_cons.1 hp with rfl | hp
              · exact Or.inr rfl
              · obtain ⟨-, -, rfl⟩ := List.mem_map.1 hp
                exact Or.inr rfl
            · exact Or.inl hp

/-- A path whose first piece goes up has that for its first part. -/
theorem head?_parts_of_up {more : List String} (h : path.stretches = ".." :: more) :
    path.parts.head? = some .up := by
  obtain ⟨piece, pieces', hpieces, hpiece, -⟩ := List.map_eq_cons_iff.1 h
  obtain rfl : piece = ['.', '.'] := by simpa using congrArg String.toList hpiece
  have habs : path.isAbsolute ≠ true := by
    intro habs
    obtain ⟨next, rest, heq⟩ := isAbsolute_iff_stretches.1 habs
    rw [h] at heq
    exact absurd (List.cons.inj heq).1 (by decide)
  rw [parts, if_neg habs, hpieces]
  rfl

theorem slash_not_mem_text {part : Part} (h : part ∈ path.parts ∨ part = .up) :
    '/' ∉ part.text.toList := by
  cases part with
  | name text => exact (isLabel_of_mem_parts (h.resolve_right (by simp))).no_slash
  | root | here | up => decide

/-- **What lies below a root goes up nowhere**, seen from there. -/
theorem ne_up_of_relativeTo? {root below : Path} (h : path.relativeTo? root = some below)
    (habs : path.isAbsolute = true) (hparts : Part.up ∉ path.parts)
    (hup : below.parts.head? ≠ some .up) : ".." ∉ below.moves := by
  by_cases hroot : root.isAbsolute = true
  · rw [relativeTo?, if_neg (by simp [habs, hroot])] at h
    obtain ⟨rest, hway, rfl⟩ := Option.map_eq_some_iff.1 h
    by_cases hrest : rest = []
    · subst hrest
      exact List.not_mem_nil
    by_cases hbare : rest = [.root]
    · subst hbare
      exact List.not_mem_nil
    have hslash : ∀ text ∈ rest.map Part.text, '/' ∉ text.toList := by
      intro text ht
      obtain ⟨part, hpart, rfl⟩ := List.mem_map.1 ht
      exact slash_not_mem_text (mem_of_way hway hpart)
    have hstretches := stretches_ofParts hrest hbare hslash
    -- a way that goes up at its start would be seen to do so
    have hfirst : rest.head? ≠ some .up := by
      intro hhead
      obtain ⟨more, rfl⟩ := List.head?_eq_some_iff.1 hhead
      exact hup (head?_parts_of_up hstretches)
    have htarget := way_eq_some (here_not_mem_parts hroot) hway hfirst
    rw [moves, hstretches]
    intro hm
    obtain ⟨part, hpart, ht⟩ := List.mem_map.1 (List.mem_filter.1 hm).1
    have hmem : part ∈ path.parts := htarget ▸ List.mem_append_right _ hpart
    exact hparts (eq_up_of_text hmem ht ▸ hmem)
  · rw [relativeTo?, if_pos (by simp [habs, hroot]), if_pos habs] at h
    obtain rfl := Option.some.inj h
    exact ne_up_of_parts hparts

/-! ### Endings -/

/-- What is put behind a text, without a slash, belongs to its last piece. -/
theorem pieces_append_free (text : List Char) {tail : List Char} (h : '/' ∉ tail) :
    ∃ before last, pieces text = before ++ [last] ∧ pieces (text ++ tail) = before ++ [last ++ tail] := by
  induction text with
  | nil => exact ⟨[], [], rfl, pieces_of_free h⟩
  | cons c text ih =>
    obtain ⟨before, last, htext, happend⟩ := ih
    by_cases hc : c = '/'
    · rw [List.cons_append, pieces, pieces, if_pos hc, if_pos hc, htext, happend]
      exact ⟨[] :: before, last, rfl, rfl⟩
    · rw [List.cons_append, pieces, pieces, if_neg hc, if_neg hc, htext, happend]
      cases before with
      | nil => exact ⟨[], c :: last, rfl, rfl⟩
      | cons first before => exact ⟨(c :: first) :: before, last, rfl, rfl⟩

/-- A path whose text has an ending: so has its last piece, which is a name. -/
theorem stretches_of_ending {front tail : String} (h : path.text = front ++ tail)
    (hfree : '/' ∉ tail.toList) (hlong : 2 < tail.toList.length) :
    ∃ before name, path.stretches = before ++ [name ++ tail] ∧ IsLabel (name ++ tail) := by
  obtain ⟨before, last, -, happend⟩ := pieces_append_free front.toList hfree
  refine ⟨before.map String.ofList, String.ofList last, ?_, ?_⟩
  · rw [stretches, h, String.toList_append, happend, List.map_append]
    simp
  · have hlast : '/' ∉ last ++ tail.toList := slash_not_mem_of_mem_pieces
      (happend ▸ List.mem_concat_self)
    have hlength : 2 < (String.ofList last ++ tail).toList.length := by
      rw [String.toList_append, List.length_append]
      omega
    refine ⟨?_, ?_, by simpa using hlast⟩
    · rintro (he | he) <;> simp [he] at hlength
    · intro he
      simp [he] at hlength

/-- What is put behind the name of a child is at the end of its text. -/
theorem text_child (base : Path) (name : String) : ∃ front, (base.child name).text = front ++ name := by
  unfold child join
  split
  · exact ⟨"", by simp⟩
  · split
    · exact ⟨base.text, rfl⟩
    · exact ⟨base.text ++ "/", rfl⟩

end StyleTokens.Path

/-
Colors, and the built-in rules as rules for properties.

The value of a color is hexadecimal or given by its components, and it stands
somewhere in a declaration, behind anything that is neither a number sign nor an
opening parenthesis.  So the first of these behind the colon tells where the value
lies, and what stands there tells which of the two forms it has.

* `Hexadecimal`, `Componentwise` — the two forms;
* `Colored` — a color or what replaces it;
* `Colored.noLead`, `Colored.clearOf` — such words can be told from leads and from
  one another;
* `hexPattern`, `componentPattern` — the patterns of the two forms;
* `colorValues` — the values of a pattern that has colors for words;
* `positions`, `radii`, `sizes`, `spacings`, `colors` — the properties that the
  built-in rule sets look for, in the order of their rules;
* `Writes` — a rule as it is written down for a property;
* `Signs` — a text as a list of signs, from which it is read;
* `position_writes` and its like — the drafts of the built-in rule sets are written down
  for these properties.

Design notes: that the notation of a rule means the pattern of its property is
found by reading it, from its signs: a text that is evaluated is decoded from its
bytes first, which takes longer than the reading.  Whether the pattern occurs in the
empty text is not found by searching it, but follows from the pattern.
-/
import StyleTokens.Builtin
import StyleTokens.Proofs.Builtin.Lengths

namespace StyleTokens

open Text Pattern

/-- The characters of hexadecimal numbers. -/
def hexSet : CharSet :=
  ⟨[⟨48, 57⟩, ⟨65, 70⟩, ⟨97, 102⟩]⟩

/-- The characters between the parentheses of a color. -/
def componentSet : CharSet :=
  ⟨[⟨9, 13⟩, ⟨32, 32⟩, ⟨41, 41⟩, ⟨44, 44⟩, ⟨46, 46⟩, ⟨48, 57⟩]⟩

/-- What may stand between a colon and a color: anything but an end of a line, a
number sign, an opening parenthesis, a semicolon or a brace. -/
def colorGap : CharSet :=
  ⟨[⟨0, 9⟩, ⟨11, 34⟩, ⟨36, 39⟩, ⟨41, 58⟩, ⟨60, 122⟩, ⟨124, 124⟩, ⟨126, 0x10FFFF⟩]⟩

/-- A number sign and hexadecimal digits. -/
def Hexadecimal (word : List Char) : Prop :=
  ∃ y, word = '#' :: y ∧ ∀ c ∈ y, hexSet.contains c = true

/-- Components between parentheses. -/
def Componentwise (word : List Char) : Prop :=
  ∃ x y, word = x ++ '(' :: (y ++ [')']) ∧ (x = "rgb".toList ∨ x = "rgba".toList) ∧
    ∀ c ∈ y, componentSet.contains c = true

/-- A color, or what may replace it. -/
def Colored (word : List Char) : Prop :=
  Hexadecimal word ∨ Componentwise word ∨ IsVariable word

namespace Colored

variable {v v' : List Char}

/-- The second character tells what the first one leaves open. -/
theorem head (h : Colored v) :
    (∃ t, v = '#' :: t) ∨ (∃ t, v = 'r' :: 'g' :: t) ∨ ∃ t, v = 'v' :: t := by
  rcases h with ⟨y, rfl, -⟩ | ⟨x, y, rfl, rfl | rfl, -⟩ | ⟨name, rfl, -⟩
  · exact Or.inl ⟨_, rfl⟩
  · exact Or.inr (Or.inl ⟨_, rfl⟩)
  · exact Or.inr (Or.inl ⟨_, rfl⟩)
  · exact Or.inr (Or.inr ⟨_, rfl⟩)

/-- A number sign or an opening parenthesis, with what stands before it. -/
theorem exists_sign (h : Colored v) : ∃ x d y, v = x ++ d :: y ∧
    (x = [] ∧ d = '#' ∨
      (x = "rgb".toList ∨ x = "rgba".toList ∨ x = "var".toList) ∧ d = '(') := by
  rcases h with ⟨y, rfl, -⟩ | ⟨x, y, rfl, hx, -⟩ | ⟨name, rfl, -⟩
  · exact ⟨[], '#', y, rfl, Or.inl ⟨rfl, rfl⟩⟩
  · exact ⟨x, '(', y ++ [')'], rfl, Or.inr ⟨hx.imp_right Or.inl, rfl⟩⟩
  · exact ⟨"var".toList, '(', "--".toList ++ (name ++ [')']), by simp,
      Or.inr ⟨Or.inr (Or.inr rfl), rfl⟩⟩

theorem noLead (h : Colored v) : NoLead v := by
  constructor
  · obtain ⟨x, d, y, rfl, ⟨rfl, rfl⟩ | ⟨hx, rfl⟩⟩ := h.exists_sign
    · exact ⟨[], '#', y, rfl, by decide, by decide, by decide, by decide⟩
    · refine ⟨x, '(', y, rfl, ?_, by decide, by decide, by decide⟩
      rcases hx with rfl | rfl | rfl <;> decide
  · intro u c t hsplit hc
    rcases h with ⟨y, rfl, hy⟩ | ⟨x, y, rfl, hx, hy⟩ | hvar
    · have hmem : c ∈ '#' :: y := by simp [hsplit]
      rcases List.mem_cons.1 hmem with rfl | hmem
      · exact absurd hc (by decide)
      · rw [CharSet.not_contains_of_apart hexSet _ (by decide) (hy c hmem)] at hc
        exact absurd hc (by simp)
    · -- Behind white space there are only more components and the closing parenthesis.
      have hx' : ∀ d ∈ x ++ ['('], boundarySet.contains d = false := by
        intro d hd
        have hall : (x ++ ['(']).all (!boundarySet.contains ·) = true := by
          rcases hx with rfl | rfl <;> decide
        simpa using List.all_eq_true.1 hall d hd
      have htext : (x ++ ['(']) ++ (y ++ [')']) = u ++ c :: t := by
        rw [← hsplit]
        simp
      rcases Nat.lt_or_ge (byteLength u) (byteLength (x ++ ['('])) with hin | hout
      · obtain ⟨m, hm, hrest⟩ := append_eq_append_of_le htext.symm hin.le
        cases m with
        | nil =>
          rw [hm] at hin
          simp at hin
        | cons d m =>
          obtain ⟨rfl, -⟩ := List.cons.inj hrest
          rw [hx' c (by simp [hm])] at hc
          exact absurd hc (by simp)
      · obtain ⟨m, -, hm⟩ := append_eq_append_of_le htext hout
        have hall : ∀ d ∈ y ++ [')'], componentSet.contains d = true := by
          intro d hd
          rcases List.mem_append.1 hd with hd | hd
          · exact hy d hd
          · rw [List.mem_singleton.1 hd]
            decide
        cases t with
        | nil =>
          have := congrArg List.getLast? hm
          obtain rfl : ')' = c := by simpa using this
          exact absurd hc (by decide)
        | cons d t =>
          exact ⟨d, t, rfl, CharSet.not_contains_of_apart componentSet _ (by decide)
            (hall d (by simp [hm]))⟩
    · rw [CharSet.not_contains_of_apart tokenSet _ (by decide)
        (hvar.contains c (by simp [hsplit]))] at hc
      exact absurd hc (by simp)

/-- A gap from the beginning of a color ends before its sign, and no color begins
there. -/
theorem clearOf (h : Colored v) (h' : Colored v') : ClearOf colorGap v v' := by
  intro z r r' htext hz
  by_contra hgap
  obtain ⟨x, d, y, rfl, hx⟩ := h.exists_sign
  have hd : colorGap.contains d = false := by
    rcases hx with ⟨-, rfl⟩ | ⟨-, rfl⟩ <;> decide
  obtain ⟨m, hm, hrest⟩ : ∃ m, x = z ++ m ∧ v' ++ r' = m ++ d :: (y ++ r) := by
    rcases List.append_eq_append_iff.1
      (show x ++ d :: (y ++ r) = z ++ (v' ++ r') by rw [← htext]; simp) with
      ⟨m, rfl, hm⟩ | ⟨m, hx', hm⟩
    · cases m with
      | nil => exact ⟨[], by simp, by simpa using hm.symm⟩
      | cons e m =>
        obtain ⟨rfl, -⟩ := List.cons.inj hm
        exact absurd ⟨d, by simp, hd⟩ hgap
    · exact ⟨m, hx', hm⟩
  -- What is left of the letters before the sign begins no color.
  have hhead : ∀ t : List Char, m ++ d :: (y ++ r) ≠ '#' :: t ∧ m ++ d :: (y ++ r) ≠ 'r' :: 'g' :: t ∧
      m ++ d :: (y ++ r) ≠ 'v' :: t := by
    obtain ⟨c, z, rfl⟩ := List.exists_cons_of_ne_nil hz
    have hsuffix : m ∈ x.tail.tails := by
      rw [List.mem_tails, hm]
      exact List.suffix_append z m
    rcases hx with ⟨rfl, -⟩ | ⟨rfl | rfl | rfl, rfl⟩
    · simp at hm
    all_goals
      simp at hsuffix
      rcases hsuffix with rfl | rfl | rfl | rfl <;> simp
  rcases h'.head with ⟨t, rfl⟩ | ⟨t, rfl⟩ | ⟨t, rfl⟩
  · exact (hhead (t ++ r')).1 hrest.symm
  · exact (hhead (t ++ r')).2.1 hrest.symm
  · exact (hhead (t ++ r')).2.2 hrest.symm

end Colored

/-! ### What replaces a color -/

theorem Hexadecimal.readable {v : List Char} (h : Hexadecimal v) {rule : Rule}
    (hrule : rule.splitValues = false) : Readable rule v := by
  obtain ⟨y, rfl, hy⟩ := h
  have hchars : ∀ c ∈ '#' :: y, c = '#' ∨ hexSet.contains c = true := fun c hc =>
    (List.mem_cons.1 hc).imp_right (hy c)
  have hsolid : ∀ c ∈ '#' :: y, isBlank c = false := by
    intro c hc
    rcases hchars c hc with rfl | hc
    · decide
    · exact not_isBlank_of_visible (CharSet.contains_of_inside hexSet _ (by decide) hc)
  obtain ⟨u, e, hu⟩ := ('#' :: y).eq_nil_or_concat'.resolve_left (by simp)
  refine ⟨fun c hc => hsolid c (List.mem_of_mem_head? hc), ⟨u, e, hu, hsolid e (by simp [hu])⟩,
    ⟨fun hc => ?_, fun hc => ?_, fun hc => ?_⟩, by simp [hrule]⟩ <;>
    exact absurd (hchars _ hc) (by decide)

theorem Componentwise.readable {v : List Char} (h : Componentwise v) {rule : Rule}
    (hrule : rule.splitValues = false) : Readable rule v := by
  obtain ⟨x, y, rfl, hx, hy⟩ := h
  have hchars : ∀ c ∈ x ++ '(' :: (y ++ [')']), c ∈ "rgba()".toList ∨
      componentSet.contains c = true := by
    intro c hc
    simp only [List.mem_append, List.mem_cons, List.not_mem_nil, or_false] at hc
    rcases hc with hc | rfl | hc | rfl
    · have hfront : x <+: "rgba()".toList := by rcases hx with rfl | rfl <;> decide
      exact Or.inl (hfront.mem hc)
    · exact Or.inl (by decide)
    · exact Or.inr (hy c hc)
    · exact Or.inl (by decide)
  refine ⟨?_, ⟨x ++ '(' :: y, ')', by simp, by decide⟩,
    ⟨fun hc => ?_, fun hc => ?_, fun hc => ?_⟩, by simp [hrule]⟩
  · intro c hc
    rcases hx with rfl | rfl <;> · obtain rfl : 'r' = c := by simpa using hc
                                   decide
  all_goals exact absurd (hchars _ hc) (by decide)

/-- Where a value is not split, it is replaced as a whole. -/
theorem isVariable_text {table : TokenTable} (htable : table.HasVariables) {rule : Rule}
    (hrule : rule.splitValues = false) {w : List Char}
    (hr : (Substitution.ofValue table rule w).replaced ≠ 0) :
    IsVariable (Substitution.ofValue table rule w).text := by
  rw [Substitution.ofValue, hrule] at hr ⊢
  cases ht : (Treatment.ofPart table rule.category w).token? with
  | none => simp [Substitution.replaced, ht] at hr
  | some token =>
    obtain ⟨-, word, hlookup, rfl⟩ := Treatment.ofPart_token? ht
    simp only [Bool.false_eq_true, if_false, Substitution.text, List.map_cons, List.map_nil, ht,
      Option.getD_some, List.flatten_cons, List.flatten_nil, List.append_nil]
    exact htable.lookup hlookup

/-- The values of a pattern whose words are colors of one form. -/
theorem colorValues {form : List Char → Prop} {p : Property} {table : TokenTable}
    (htable : table.HasVariables) {rule : Rule} (hrule : rule.splitValues = false)
    (hwords : ∀ w, p.value.Words w → form w) (hform : ∀ w, form w → Colored w)
    (hreadable : ∀ w, form w → Readable rule w) :
    p.Values table rule fun v => form v ∨ IsVariable v where
  readable w hw := hreadable w (hwords w hw)
  bears_of_words w hw := Or.inl (hwords w hw)
  ne_nil v hv := by
    have hv : Colored v := hv.elim (hform v) fun h => Or.inr (Or.inr h)
    rcases hv.head with ⟨t, rfl⟩ | ⟨t, rfl⟩ | ⟨t, rfl⟩ <;> simp
  bears_text w _ hr := Or.inr (isVariable_text htable hrule hr)

/-! ### Patterns of colors -/

namespace Builtin

/-- A number sign and six digits, or three. -/
def hexPattern : Pattern :=
  .alt (.seq (.one (.single '#')) (.rounds 6 (some 6) true (.one hexSet)))
    (.seq (.one (.single '#')) (.rounds 3 (some 3) true (.one hexSet)))

/-- White space, or none. -/
def spaces : Pattern :=
  .rounds 0 none true (.one .space)

/-- The name of a form and its opening parenthesis, piece by piece. -/
def openingPieces : List Pattern :=
  [.one (.single 'r'), .one (.single 'g'), .one (.single 'b'),
    .rounds 0 (some 1) true (.one (.single 'a')), .one (.single '(')]

/-- Three components and perhaps an opacity, piece by piece. -/
def componentPieces : List Pattern :=
  [spaces, digits, spaces, .one (.single ','), spaces, digits, spaces, .one (.single ','), spaces,
    digits, spaces,
    .rounds 0 (some 1) true (seqOf [.one (.single ','), spaces,
      .rounds 0 (some 1) true (.seq (.rounds 0 none true (.one .digit)) (.one (.single '.'))),
      digits, spaces])]

/-- A color by its components. -/
def componentPattern : Pattern :=
  seqOf (openingPieces ++ (componentPieces ++ [.one (.single ')')]))

theorem eq_of_single {c d : Char} (h : (CharSet.single c).contains d = true) : d = c := by
  simp only [CharSet.single, CharSet.contains_span, Bool.and_eq_true, decide_eq_true_eq] at h
  exact Char.toNat_inj.1 (by omega)

theorem hexadecimal_of_words {w : List Char} (h : hexPattern.Words w) : Hexadecimal w := by
  rcases h with ⟨_, y, rfl, ⟨c, rfl, hc⟩, hy⟩ | ⟨_, y, rfl, ⟨c, rfl, hc⟩, hy⟩ <;>
    · obtain rfl := eq_of_single hc
      exact ⟨y, rfl, (words_rounds_one.1 hy).2.2⟩

theorem componentwise_of_words {w : List Char} (h : componentPattern.Words w) :
    Componentwise w := by
  obtain ⟨x, _, rfl, hx, y, _, rfl, hy, _, _, rfl, ⟨c, rfl, hc⟩, rfl⟩ := by
    simpa only [wordsSeq_append] using (words_seqOf _ _).1 h
  obtain rfl := eq_of_single hc
  have hopen : (seqOf openingPieces).words? =
      some ["rgb(".toList, "rgba(".toList] := by decide
  have hx := mem_of_words? hopen x ((words_seqOf _ _).2 hx)
  have hy : ∀ c ∈ y, componentSet.contains c = true := contains_of_wordsSeq (by decide) hy
  simp only [List.mem_cons, List.not_mem_nil, or_false] at hx
  rcases hx with rfl | rfl
  · exact ⟨"rgb".toList, y, by simp, Or.inl rfl, hy⟩
  · exact ⟨"rgba".toList, y, by simp, Or.inr rfl, hy⟩

end Builtin

/-! ### The built-in rules -/

namespace Builtin

/-- The characters of a word, one by one. -/
def letters (word : String) : List Pattern :=
  word.toList.map fun c => .one (.single c)

/-- One of several words. -/
def oneOf (words : List String) : Pattern :=
  altOf (words.map fun word => seqOf (letters word))

/-- A pattern that may be missing. -/
def optional (pattern : Pattern) : Pattern :=
  .rounds 0 (some 1) true pattern

/-- White space and perhaps a quote. -/
def quoted : List Pattern :=
  [spaces, optional (.one ⟨[⟨34, 34⟩, ⟨39, 39⟩]⟩)]

/-- What may stand between the name of a color and the color. -/
def anything : List Pattern :=
  [.rounds 0 none false (.one colorGap)]

/-- The sides of a box. -/
def sideNames : List String :=
  ["top", "right", "bottom", "left"]

/-- The name of a property with or without a side. -/
def sided (word : String) : List Pattern :=
  letters word ++ [optional (altOf (.seq (.one (.single '-')) (oneOf sideNames) ::
    ["Top", "Right", "Bottom", "Left"].map fun side => seqOf (letters side)))]

/-- Offsets and the stacking order. -/
def positions : List Property := [
  ⟨[oneOf sideNames], quoted, seqOf (signed pixelPieces)⟩,
  ⟨[oneOf ["z-index", "zIndex"]], quoted, digits⟩]

/-- Radii of corners. -/
def radii : List Property := [
  ⟨[altOf [
      seqOf (letters "border" ++ [optional (seqOf [.one (.single '-'), oneOf ["top", "bottom"],
        .one (.single '-'), oneOf ["left", "right"]])] ++ letters "-radius"),
      seqOf (letters "borderRadius")]],
    quoted, list pixelPieces 3⟩]

/-- Font sizes, dimensions and line heights. -/
def sizes : List Property := [
  ⟨[oneOf ["font-size", "fontSize"]], quoted, seqOf pixelPieces⟩,
  ⟨[.alt (.seq (optional (oneOf ["min-", "max-"])) (oneOf ["width", "height"]))
      (.seq (oneOf ["min", "max"]) (oneOf ["Width", "Height"]))],
    quoted, seqOf pixelPieces⟩,
  ⟨[oneOf ["line-height", "lineHeight"]], quoted, seqOf pixelPieces⟩]

/-- Margins, paddings and gaps. -/
def spacings : List Property := [
  ⟨sided "margin", quoted, list marginPieces 3⟩,
  ⟨sided "padding", quoted, list marginPieces 3⟩,
  ⟨[altOf [seqOf (optional (oneOf ["row-", "column-"]) :: letters "gap"),
      seqOf (letters "rowGap"), seqOf (letters "columnGap")]],
    quoted, list marginPieces 1⟩]

/-- The names of the properties that hold colors. -/
def colorNames : Pattern :=
  altOf ((["color", "background-color", "background", "border-color"].map fun word =>
      seqOf (letters word)) ++
    seqOf (letters "border" ++ [optional (.seq (.one (.single '-')) (oneOf sideNames))]) ::
    ["outline", "fill", "stroke", "box-shadow"].map fun word => seqOf (letters word))

/-- Colors in hexadecimal and as components. -/
def colors : List Property := [
  ⟨[colorNames], anything, hexPattern⟩,
  ⟨[colorNames], anything, componentPattern⟩]

/-- The names that a property has. -/
def namesOf (p : Property) : List (List Char) :=
  ((seqOf p.name).words?).getD []

/-- Whether a word can be the name of a property. -/
def isName (word : List Char) : Bool :=
  (word.head?.any startSet.contains) && word.all nameSet.contains

/-- A draft that is written down for a property. -/
structure Writes (draft : RuleDraft) (p : Property) : Prop where
  parse_eq : Pattern.parse draft.pattern = .ok p.pattern
  id : (Text.trimmed draft.id).isEmpty = false
  value : p.pattern.names.contains valueGroup = true
  sound : p.sound = true
  listed : (seqOf p.name).words?.isSome = true
  named : (namesOf p).all isName = true

/-! ### Notations as lists of signs -/

/-- A text and its signs.  Those of a literal are found by unification. -/
structure Signs (text : String) (signs : List Char) : Prop where
  eq_ofList : text = String.ofList signs

theorem Signs.ofList (signs : List Char) : Signs (String.ofList signs) signs :=
  ⟨rfl⟩

theorem Signs.append {front back : String} {first second : List Char} (h : Signs front first)
    (h' : Signs back second) : Signs (front ++ back) (first ++ second) :=
  ⟨by rw [h.eq_ofList, h'.eq_ofList, String.ofList_append]⟩

theorem Signs.value {pattern : String} {signs : List Char} (h : Signs pattern signs) :
    Signs (value pattern) (['(', '?', 'P', '<', 'v', 'a', 'l', 'u', 'e', '>'] ++ signs ++ [')']) :=
  .append (.append (.ofList _) h) (.ofList _)

theorem Signs.listOf {part : String} {signs : List Char} (h : Signs part signs) (more : Nat) :
    Signs (listOf part more) (['(', '?', 'P', '<', 'v', 'a', 'l', 'u', 'e', '>'] ++
      (signs ++ ['(', '?', ':', '\\', 's', '+'] ++ signs ++ [')', '\x7b', '0', ','] ++
        Nat.toDigits 10 more ++ ['\x7d']) ++ [')']) :=
  .value (.append (.append (.append (.append (.append h (.ofList _)) h) (.ofList _)) (.ofList _))
    (.ofList _))

/-- The pattern that signs denote. -/
def readSigns (signs : List Char) : Except Flaw Pattern := do
  let (whole, _) ← (alternatives (signs.length + 1) 0 [] []).run ⟨signs, {}, []⟩
  if whole.depth > depthLimit then throw .tooDeep
  if whole.size > sizeLimit then throw .tooLarge
  return whole.pattern

theorem Signs.parse_eq {text : String} {signs : List Char} (h : Signs text signs) :
    Pattern.parse text = readSigns signs := by
  rw [h.eq_ofList, Pattern.parse, String.toList_ofList, String.length_ofList, readSigns]

/-- A draft whose notation has these signs is written down for a property, if they denote the
pattern of it. -/
theorem Writes.of_signs {draft : RuleDraft} {p : Property} {signs : List Char}
    (hsigns : Signs draft.pattern signs)
    (h : readSigns signs = .ok p.pattern ∧ (Text.trimmed draft.id).isEmpty = false ∧
      p.pattern.names.contains valueGroup = true ∧ p.sound = true ∧
      (seqOf p.name).words?.isSome = true ∧ (namesOf p).all isName = true) : Writes draft p :=
  ⟨hsigns.parse_eq.trans h.1, h.2.1, h.2.2.1, h.2.2.2.1, h.2.2.2.2.1, h.2.2.2.2.2⟩

/-! ### The built-in drafts -/

theorem Signs.colon {front : String} {signs : List Char} (h : Signs front signs) :
    Signs (front ++ colon) (signs ++
      ['\\', 's', '*', ':', '\\', 's', '*', '[', '\'', '"', ']', '?']) :=
  .append h (.ofList _)

theorem position_writes : List.Forall₂ Writes position positions := by
  refine .cons (.of_signs (.append (.colon (.append (.ofList _) (.ofList _)))
    (.value (.append (.ofList _) (.ofList _)))) ?_) (.cons (.of_signs
      (.append (.colon (.append (.ofList _) (.ofList _))) (.value (.ofList _))) ?_) .nil)
  all_goals decide +kernel

theorem radius_writes : List.Forall₂ Writes radius radii := by
  refine .cons (.of_signs (.append (.colon (.append (.ofList _) (.ofList _)))
    (.listOf (.ofList _) _)) ?_) .nil
  decide +kernel

theorem size_writes : List.Forall₂ Writes size sizes := by
  have hvalue : Signs (value pixels) _ := .value (.ofList _)
  refine .cons (.of_signs (.append (.colon (.append (.ofList _) (.ofList _))) hvalue) ?_)
    (.cons (.of_signs (.append (.colon (.append (.ofList _) (.ofList _))) hvalue) ?_)
      (.cons (.of_signs (.append (.colon (.append (.ofList _) (.ofList _))) hvalue) ?_) .nil))
  all_goals decide +kernel

theorem spacing_writes : List.Forall₂ Writes spacing spacings := by
  have hmargin : Signs margin _ := .append (.append (.ofList _) (.ofList _)) (.ofList _)
  have hlist (more : Nat) := hmargin.listOf more
  refine .cons (.of_signs (.append (.colon (.append (.append (.ofList _) (.ofList _))
      (.ofList _))) (hlist 3)) ?_)
    (.cons (.of_signs (.append (.colon (.append (.append (.ofList _) (.ofList _))
        (.ofList _))) (hlist 3)) ?_)
      (.cons (.of_signs (.append (.colon (.append (.ofList _) (.ofList _))) (hlist 1)) ?_) .nil))
  all_goals decide +kernel

theorem color_writes : List.Forall₂ Writes color colors := by
  have hcolored : Signs (lead ++ colored) _ :=
    .append (.ofList _) (.append (.append (.ofList _) (.ofList _)) (.ofList _))
  refine .cons (.of_signs (.append hcolored (.value (.ofList _))) ?_)
    (.cons (.of_signs (.append hcolored (.value (.append (.ofList _) (.ofList _)))) ?_) .nil)
  all_goals decide +kernel

end Builtin

end StyleTokens

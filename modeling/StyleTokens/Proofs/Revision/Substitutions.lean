/-
What replaces a value, read once more.

The text that replaces a value keeps the literals in front of the first token.
So whatever a rule reads there a second time are literals that it kept the first
time, and from the first token on the text can do no harm to comments.

* `Substitution.exists_first` — a substitution up to its first token;
* `Readable` — values that hold nothing of a token and end with a literal;
* `Readable.exists_inert` — the part of a value that is replaced;
* `Readable.replaced_eq_zero` — reading what replaced a value.
-/
import StyleTokens.Proofs.Revision.Comments

namespace StyleTokens

open Text

namespace Substitution

variable {table : TokenTable} {rule : Rule} {value : List Char}

theorem text_append (first second : List (List Char × Treatment)) :
    (mk (first ++ second)).text = (mk first).text ++ (mk second).text := by
  simp [text]

/-- Parts without tokens stay. -/
theorem text_of_forall {parts : List (List Char × Treatment)} (h : ∀ p ∈ parts, p.2.token? = none) :
    (mk parts).text = (parts.map Prod.fst).flatten := by
  rw [text]
  congr 1
  refine List.map_congr_left fun p hp => ?_
  simp [h p hp]

/-- A substitution with a token, up to the first one. -/
theorem exists_first {s : Substitution} (h : s.replaced ≠ 0) : ∃ first part token rest,
    s.parts = first ++ part :: rest ∧ (∀ p ∈ first, p.2.token? = none) ∧
      part.2.token? = some token := by
  obtain ⟨parts⟩ := s
  induction parts with
  | nil => exact absurd rfl h
  | cons p parts ih =>
    cases hp : p.2.token? with
    | some token => exact ⟨[], p, token, parts, rfl, by simp, hp⟩
    | none =>
      obtain ⟨first, part, token, rest, h1, h2, h3⟩ := ih (by simpa [replaced, hp] using h)
      refine ⟨p :: first, part, token, rest, by simpa using h1, ?_, h3⟩
      intro q hq
      rcases List.mem_cons.1 hq with rfl | hq
      · exact hp
      · exact h2 q hq

end Substitution

/-- A value that holds nothing of a token, begins and ends with a literal and, if it
is a list, holds nothing that ends a value but white space. -/
structure Readable (rule : Rule) (value : List Char) : Prop where
  head : ∀ c, value.head? = some c → isBlank c = false
  last : ∃ u e, value = u ++ [e] ∧ isBlank e = false
  free : 'v' ∉ value ∧ '/' ∉ value ∧ '<' ∉ value
  ends : rule.splitValues = true → ∀ c ∈ value, endsValue (some c) = true → isBlank c = true

namespace Readable

variable {table : TokenTable} {rule : Rule} {value : List Char}

theorem ne_nil (h : Readable rule value) : value ≠ [] := by
  obtain ⟨u, e, rfl, -⟩ := h.last
  simp

/-- What replaces a value, up to the first token in it. -/
theorem exists_first (h : Readable rule value) (htable : table.HasVariables)
    (hr : (Substitution.ofValue table rule value).replaced ≠ 0) :
    ∃ first part token rest, (Substitution.ofValue table rule value).parts =
        first ++ (part, .mapped token) :: rest ∧
      (∀ p ∈ first, p.2.token? = none) ∧
      value = (first.map Prod.fst).flatten ++ (part ++ (rest.map Prod.fst).flatten) ∧
      (Substitution.ofValue table rule value).text =
        (first.map Prod.fst).flatten ++ (token ++ (Substitution.mk rest).text) ∧
      part ≠ [] ∧ part.head? ≠ some '
' ∧ IsVariable token := by
  obtain ⟨first, ⟨part, treatment⟩, token, rest, hparts, hfirst, htoken⟩ :=
    Substitution.exists_first hr
  obtain rfl : treatment = .mapped token := by
    cases treatment <;> simp_all [Treatment.token?]
  have hmem : (part, Treatment.mapped token) ∈ (Substitution.ofValue table rule value).parts := by
    rw [hparts]
    simp
  obtain ⟨hne, hline, -⟩ := Substitution.harmless_ofValue htable h.head _ hmem token rfl
  refine ⟨first, part, token, rest, hparts, hfirst, ?_, ?_, hne, hline, ?_⟩
  · have := Substitution.flatten_parts table rule value
    rw [hparts] at this
    simpa using this.symm
  · rw [show Substitution.ofValue table rule value = ⟨first ++ (part, .mapped token) :: rest⟩ from
      congrArg Substitution.mk hparts, Substitution.text_append, Substitution.text_of_forall hfirst]
    rfl
  · simp only [Substitution.ofValue, List.mem_map] at hmem
    obtain ⟨text, -, heq⟩ := hmem
    obtain ⟨-, ht⟩ := Prod.mk.inj heq
    obtain ⟨-, word, hlookup, rfl⟩ := Treatment.ofPart_token? (by rw [ht]; rfl)
    exact htable.lookup hlookup

/-- From the first token on, what replaces a value can do no harm to comments. -/
theorem exists_inert (h : Readable rule value) (htable : table.HasVariables)
    (hr : (Substitution.ofValue table rule value).replaced ≠ 0) : ∃ x y y', value = x ++ y ∧
      (Substitution.ofValue table rule value).text = x ++ y' ∧ y ≠ [] ∧ y.head? ≠ some '
' ∧
      Comment.Inert y' := by
  obtain ⟨first, part, token, rest, hparts, -, hvalue, htext, hne, hline, hvar⟩ :=
    h.exists_first htable hr
  refine ⟨_, _, _, hvalue, htext, by simp [hne], ?_, ?_⟩
  · obtain ⟨c, part, rfl⟩ := List.exists_cons_of_ne_nil hne
    exact hline
  · obtain ⟨⟨c, tail, rfl, hc⟩, hfree⟩ := hvar.inert
    refine ⟨⟨c, tail ++ (Substitution.mk rest).text, rfl, hc⟩, ?_⟩
    have hrest : ∀ d ∈ (Substitution.mk rest).text, d ≠ '/' ∧ d ≠ '<' := by
      intro d hd
      obtain ⟨piece, hp, hd⟩ := List.mem_flatten.1 hd
      obtain ⟨⟨text, treatment⟩, hm, rfl⟩ := List.mem_map.1 hp
      dsimp only at hd
      cases ht : treatment.token? with
      | none =>
        rw [ht, Option.getD_none] at hd
        have : d ∈ value := by
          rw [hvalue]
          exact List.mem_append_right _ (List.mem_append_right _
            (List.mem_flatten_of_mem (List.mem_map_of_mem hm) hd))
        constructor <;> rintro rfl
        · exact h.free.2.1 this
        · exact h.free.2.2 this
      | some word =>
        rw [ht, Option.getD_some] at hd
        have hin : (text, treatment) ∈ (Substitution.ofValue table rule value).parts := by
          rw [hparts]
          simp [hm]
        have := (Substitution.harmless_ofValue htable h.head _ hin word ht).2.2.free
        constructor <;> rintro rfl
        · exact this.1 hd
        · exact this.2 hd
    constructor <;> intro hm <;> rcases List.mem_append.1 hm with hm | hm
    · exact hfree.1 hm
    · exact (hrest _ hm).1 rfl
    · exact hfree.2 hm
    · exact (hrest _ hm).2 rfl

/-- **Nothing that is read in what replaced a value has a token.**  It ends before
the first token, so it consists of literals that were kept. -/
theorem replaced_eq_zero (h : Readable rule value) (htable : table.HasVariables)
    (hr : (Substitution.ofValue table rule value).replaced ≠ 0) {value' b b' : List Char}
    (h' : Readable rule value')
    (htext : (Substitution.ofValue table rule value).text ++ b = value' ++ b')
    (hend : endsValue b'.head? = true) :
    (Substitution.ofValue table rule value').replaced = 0 := by
  obtain ⟨first, part, token, rest, hparts, hfirst, hvalue, htext', hne, -, ⟨name, rfl, -⟩⟩ :=
    h.exists_first htable hr
  set kept := (first.map Prod.fst).flatten with hkept
  obtain ⟨tail, htail⟩ : ∃ tail, (Substitution.ofValue table rule value).text ++ b =
      kept ++ 'v' :: tail :=
    ⟨"ar(--".toList ++ (name ++ ')' :: ((Substitution.mk rest).text ++ b)), by rw [htext']; simp⟩
  obtain ⟨m, hm, hb⟩ : ∃ m, kept = value' ++ m ∧ b' = m ++ 'v' :: tail := by
    rcases List.append_eq_append_iff.1 (htail.symm.trans htext) with ⟨m, hm, hb⟩ | ⟨m, hm, hb⟩
    · cases m with
      | nil => exact ⟨[], by simpa using hm.symm, hb.symm⟩
      | cons d m =>
        obtain ⟨rfl, -⟩ := List.cons.inj hb
        exact absurd (by simp [hm]) h'.free.1
    · exact ⟨m, hm, hb⟩
  obtain ⟨c, m, rfl⟩ : ∃ c m', m = c :: m' := by
    refine List.exists_cons_of_ne_nil fun hnil => ?_
    rw [hb, hnil, List.nil_append, List.head?_cons] at hend
    exact absurd hend (by decide)
  rw [hb] at hend
  obtain ⟨u, e, rfl, he⟩ := h'.last
  cases hsplit : rule.splitValues with
  | false =>
    -- Then the value was one part, and nothing was kept.
    have hlen := congrArg List.length hparts
    obtain rfl : first = [] := by
      simp only [Substitution.ofValue, hsplit, Bool.false_eq_true, if_false, List.map_cons,
        List.map_nil, List.length_cons, List.length_nil, List.length_append] at hlen
      exact List.length_eq_zero_iff.1 (by omega)
    simp [hkept] at hm
  | true =>
    have hc : isBlank c = true := h.ends hsplit c (by rw [hvalue, hm]; simp) hend
    have hruns : runs value = runs (u ++ [e]) ++ runs (c :: (m ++ (part ++
        (rest.map Prod.fst).flatten))) := by
      rw [← runs_append (by rw [he, hc]; simp), hvalue, hm]
      simp
    have hvalues : ∀ v, (Substitution.ofValue table rule v).parts =
        (runs v).map fun part => (part, Treatment.ofPart table rule.category part) := fun v => by
      rw [Substitution.ofValue, hsplit]
      rfl
    have hprefix : (Substitution.ofValue table rule (u ++ [e])).parts <+:
        (Substitution.ofValue table rule value).parts := by
      rw [hvalues, hvalues, hruns, List.map_append]
      exact List.prefix_append _ _
    have hall : ∀ p ∈ (Substitution.ofValue table rule (u ++ [e])).parts, p.2.token? = none := by
      rcases List.prefix_or_prefix_of_prefix hprefix (hparts ▸ List.prefix_append first _) with
        hle | ⟨more, hmore⟩
      · exact fun p hp => hfirst p (hle.subset hp)
      · -- The literals that were kept are longer than what is read.
        have := congrArg List.length (Substitution.flatten_parts table rule (u ++ [e]))
        rw [← hmore, List.map_append, List.flatten_append, ← hkept, hm] at this
        simp only [List.length_append, List.length_cons] at this
        omega
    rw [Substitution.replaced, List.length_eq_zero_iff, List.filterMap_eq_nil_iff]
    exact hall

end Readable

end StyleTokens

/-
Values that are lists.

A rule may take its values for lists.  It looks at the items of such a value one by one, and
puts what it makes of them back between the white space that was between them.

* `TokenTable.Spares` — a list none of whose items has a token other than itself;
* `Substitution.text_of_spares` — such a list is put back as it was;
* `RuleSet.text_step_of_spares` — and a turn that finds no others leaves the text as it is;
* `lists_lossless` — all of it, and how a list is cut into its items.
-/
import StyleTokens.Proofs.Revision.Single
import StyleTokens.Proofs.Text.Runs

namespace StyleTokens

open Text

/-- A list each of whose items has no token under a category, or has itself for its token. -/
def TokenTable.Spares (table : TokenTable) (category : Category) (value : List Char) : Prop :=
  ∀ before item after, value = before ++ (item ++ after) → IsItem before item after →
    ∀ token, table.lookup? category item = some token → token.toList = item

variable {table : TokenTable} {set : RuleSet} {rule : Rule} {value : List Char} {draft : Draft}

/-- Whether a list is spared is told by its runs. -/
theorem TokenTable.spares_iff {category : Category} : table.Spares category value ↔
    ∀ part ∈ runs value, allBlank part = false → ∀ token ∈ table.lookup? category part,
      token.toList = part := by
  constructor
  · intro h part hp hsolid
    obtain ⟨first, rest, hruns⟩ := List.append_of_mem hp
    have hvalue : value = first.flatten ++ (part ++ rest.flatten) := by
      rw [← flatten_runs value, hruns, List.flatten_append, List.flatten_cons]
    exact h _ _ _ hvalue (AreRuns.isItem (hruns ▸ areRuns_runs value) hsolid)
  · rintro h before item after rfl hitem
    obtain ⟨first, rest, hruns, hsolid, -⟩ := (isItem_iff before item after).1 hitem
    exact h item (by simp [hruns]) hsolid

instance (table : TokenTable) (category : Category) (value : List Char) :
    Decidable (table.Spares category value) :=
  decidable_of_iff _ TokenTable.spares_iff.symm

/-- **A list that is spared is put back as it was.** -/
theorem Substitution.text_of_spares (hlist : rule.splitValues = true)
    (h : table.Spares rule.category value) : (ofValue table rule value).text = value := by
  have hparts : ∀ part ∈ runs value,
      (Treatment.ofPart table rule.category part).token?.getD part = part := by
    intro part hp
    cases htoken : (Treatment.ofPart table rule.category part).token? with
    | none => rfl
    | some token =>
      obtain ⟨hsolid, word, hword, rfl⟩ := Treatment.ofPart_token? htoken
      exact TokenTable.spares_iff.1 h part hp hsolid word hword
  rw [ofValue, text, hlist, if_pos rfl, List.map_map]
  conv_rhs => rw [← flatten_runs value]
  exact congrArg List.flatten ((List.map_congr_left hparts).trans (List.map_id _))

/-- **A turn that finds only lists that are spared leaves the text as it is.** -/
theorem RuleSet.text_step_of_spares (hlist : rule.splitValues = true)
    (h : ∀ hit ∈ rule.hits draft.claims draft.text, set.table.Spares rule.category hit.literal) :
    (set.step rule draft).1.text = draft.text := by
  -- each edit puts back what it takes out
  have hsame : ∀ edit ∈ set.edits rule draft.text (rule.hits draft.claims draft.text),
      edit.text = slice edit.span draft.text := by
    intro edit he
    obtain ⟨hit, hm, hspan, hnew⟩ := exists_hit_of_mem_edits he
    obtain ⟨found, -, hfound⟩ := List.mem_filterMap.1 (Rule.hits_eq ▸ hm)
    obtain ⟨place, -, rfl, -⟩ := Rule.hitOf?_eq_some_iff.1 hfound
    obtain ⟨-, -, htext⟩ := change?_eq_some_iff.1 hnew
    rw [htext, ← text_ofValue, Substitution.text_of_spares hlist (h _ hm), hspan]
  obtain ⟨stretches, tail, htext, hspliced, -⟩ :=
    (set.edits_fit rule draft.claims draft.text).exists_stretches id [] rfl hsame
  rw [set.step_eq rule draft, htext]
  exact htext ▸ hspliced

/-- **A list is cut into its items without loss.**  Its runs are not empty, make up the list,
are white space throughout or free of it, and alternate; so those that are not white space are
the items of the list, each at its place.  A list none of whose items has a token other than
itself is put back as it was, and a turn of a rule that finds only such lists leaves the text
as it is. -/
theorem lists_lossless :
    (∀ value, AreRuns value (runs value)) ∧
    (∀ before item after, IsItem before item after ↔
      ∃ first rest, runs (before ++ (item ++ after)) = first ++ item :: rest ∧
        allBlank item = false ∧ first.flatten = before ∧ rest.flatten = after) ∧
    (∀ (table : TokenTable) (rule : Rule) value, rule.splitValues = true →
      table.Spares rule.category value → (Substitution.ofValue table rule value).text = value) ∧
    ∀ (set : RuleSet) (rule : Rule) (draft : Draft), rule.splitValues = true →
      (∀ hit ∈ rule.hits draft.claims draft.text,
        set.table.Spares rule.category hit.literal) →
      (set.step rule draft).1.text = draft.text :=
  ⟨areRuns_runs, isItem_iff, fun _ _ _ => Substitution.text_of_spares,
    fun _ _ _ => RuleSet.text_step_of_spares⟩

namespace Sample

/-- A table in which a length is its own token. -/
def gaps : List TokenEntry :=
  [⟨"8px", .spacing, "8px"⟩]

/-- A rule that takes all that follows the property for a list. -/
def gapDraft : RuleDraft :=
  ⟨"gap", .spacing, "gap:(?P<value>[^;]+)", "", true⟩

/-- A list with white space of several kinds, between a length that is its own token and a word
that has none. -/
theorem gaps_spared : ∃ table set, TokenTable.ofEntries gaps = .ok table ∧
    RuleSet.ofDrafts "gaps" [gapDraft] table = .ok set ∧ ∃ rule ∈ set.rules,
      rule.splitValues = true ∧ set.table.Spares rule.category " 8px\u2003\n auto".toList ∧
      (Substitution.ofValue set.table rule " 8px\u2003\n auto".toList).text =
        " 8px\u2003\n auto".toList ∧
      (set.step rule ⟨"gap: 8px\u2003\n auto;".toList, []⟩).1.text =
        "gap: 8px\u2003\n auto;".toList := by
  have hcomputed : ((TokenTable.ofEntries gaps).toOption.bind fun table =>
      (RuleSet.ofDrafts "gaps" [gapDraft] table).toOption.map fun set => (table, set)).any
        (fun (_, set) => set.rules.any fun rule => rule.splitValues &&
          decide (set.table.Spares rule.category " 8px\u2003\n auto".toList) &&
          (rule.hits [] "gap: 8px\u2003\n auto;".toList).all fun hit =>
            decide (set.table.Spares rule.category hit.literal)) = true := by
    decide +kernel
  cases htable : TokenTable.ofEntries gaps with
  | error fault =>
    rw [htable] at hcomputed
    cases hcomputed
  | ok table =>
    cases hset : RuleSet.ofDrafts "gaps" [gapDraft] table with
    | error fault =>
      rw [htable, Except.toOption, Option.bind_some, hset] at hcomputed
      cases hcomputed
    | ok set =>
      rw [htable, Except.toOption, Option.bind_some, hset] at hcomputed
      obtain ⟨rule, hrule, hspared⟩ := List.any_eq_true.1 hcomputed
      simp only [Bool.and_eq_true, decide_eq_true_eq, List.all_eq_true] at hspared
      obtain ⟨⟨hlist, hspares⟩, hhits⟩ := hspared
      obtain ⟨-, -, hvalue, hturn⟩ := lists_lossless
      exact ⟨table, set, rfl, hset, rule, hrule, hlist, hspares,
        hvalue _ _ _ hlist hspares, hturn _ _ _ hlist hhits⟩

end Sample

end StyleTokens

/-
The words of patterns and of programs.

What a pattern matches depends on the character before a place, since it may
put a condition on it, and on the text behind the word.  So a language relates
the three, and languages follow one another by handing these on.

* `Language` — which words may stand between which neighbours;
* `Pattern.Spells`, `Node.Spells` — the words of a pattern and of a node;
* `spellsAll` — the words of the nodes that a thread still has to run;
* `Pattern.spells_program` — a program has the words of its pattern.

Design notes: the languages do not say which of several words a search prefers;
that is the matter of `Thread.Yields`.
-/
import StyleTokens.Proofs.Pattern.Building

namespace StyleTokens

/-- The character before the place behind a word. -/
def endChar (before : Option Char) : List Char → Option Char
  | [] => before
  | c :: rest => endChar (some c) rest

@[simp] theorem endChar_nil (before : Option Char) : endChar before [] = before := rfl

@[simp] theorem endChar_cons (before : Option Char) (c : Char) (rest : List Char) :
    endChar before (c :: rest) = endChar (some c) rest := rfl

@[simp] theorem endChar_append (before : Option Char) (u v : List Char) :
    endChar before (u ++ v) = endChar (endChar before u) v := by
  induction u generalizing before with
  | nil => rfl
  | cons c u ih => exact ih (some c)

/-- Which words may stand behind a character and in front of a text. -/
abbrev Language :=
  (before : Option Char) → (word after : List Char) → Prop

namespace Language

/-- Only the empty word. -/
def nothing : Language := fun _ word _ => word = []

/-- A word of the first language, then one of the second. -/
def seq (first second : Language) : Language := fun before word after =>
  ∃ u v, word = u ++ v ∧ first before u (v ++ after) ∧ second (endChar before u) v after

/-- The words of either language. -/
def or (first second : Language) : Language := fun before word after =>
  first before word after ∨ second before word after

/-- A number of words, one behind the other. -/
def power (language : Language) : Nat → Language
  | 0 => nothing
  | n + 1 => language.seq (power language n)

@[simp] theorem nothing_iff {before : Option Char} {word after : List Char} :
    nothing before word after ↔ word = [] := Iff.rfl

@[simp] theorem seq_nothing (language : Language) : language.seq nothing = language := by
  funext before word after
  refine propext ⟨?_, fun h => ⟨word, [], by simp, by simpa using h, rfl⟩⟩
  rintro ⟨u, v, rfl, h, rfl⟩
  simpa using h

@[simp] theorem nothing_seq (language : Language) : nothing.seq language = language := by
  funext before word after
  refine propext ⟨?_, fun h => ⟨[], word, rfl, rfl, h⟩⟩
  rintro ⟨u, v, rfl, rfl, h⟩
  exact h

theorem seq_assoc (first second third : Language) :
    (first.seq second).seq third = first.seq (second.seq third) := by
  funext before word after
  refine propext ⟨?_, ?_⟩
  · rintro ⟨_, w, rfl, ⟨u, v, rfl, h1, h2⟩, h3⟩
    refine ⟨u, v ++ w, by simp, by simpa using h1, v, w, rfl, h2, ?_⟩
    simpa using h3
  · rintro ⟨u, _, rfl, h1, v, w, rfl, h2, h3⟩
    refine ⟨u ++ v, w, by simp, ⟨u, v, rfl, by simpa using h1, h2⟩, ?_⟩
    simpa using h3

theorem or_seq (first second third : Language) :
    (first.or second).seq third = (first.seq third).or (second.seq third) := by
  funext before word after
  refine propext ⟨?_, ?_⟩
  · rintro ⟨u, v, rfl, h1 | h1, h2⟩
    · exact Or.inl ⟨u, v, rfl, h1, h2⟩
    · exact Or.inr ⟨u, v, rfl, h1, h2⟩
  · rintro (⟨u, v, rfl, h1, h2⟩ | ⟨u, v, rfl, h1, h2⟩)
    · exact ⟨u, v, rfl, Or.inl h1, h2⟩
    · exact ⟨u, v, rfl, Or.inr h1, h2⟩

theorem or_comm (first second : Language) : first.or second = second.or first := by
  funext before word after
  exact propext Or.comm

/-- The number of words can be cut at any point. -/
theorem power_add (language : Language) (m n : Nat) :
    (language.power m).seq (language.power n) = language.power (m + n) := by
  induction m with
  | zero => rw [power, nothing_seq, Nat.zero_add]
  | succ m ih => rw [power, seq_assoc, ih, Nat.add_right_comm, power]

end Language

open Language

namespace Node

/-- The words of a node. -/
def Spells : Node → Language
  | empty => nothing
  | one set => fun _ word _ => ∃ c, word = [c] ∧ set.contains c = true
  | assert condition => fun before word after =>
    word = [] ∧ condition.holds before after.head? = true
  | group _ body => body.Spells
  | seq a b => a.Spells.seq b.Spells
  | choice _ a b => a.Spells.or b.Spells
  | again _ _ body => fun before word after => ∃ n, body.Spells.power n before word after
  | atLeastOnce _ _ body => fun before word after =>
    ∃ n, body.Spells.power (n + 1) before word after

/-- Another round or none. -/
theorem spells_again (label : Nat) (greedy : Bool) (body : Node) :
    (again label greedy body).Spells =
      (body.Spells.seq (again label greedy body).Spells).or nothing := by
  funext before word after
  refine propext ⟨?_, ?_⟩
  · rintro ⟨_ | n, h⟩
    · exact Or.inr h
    · obtain ⟨u, v, rfl, h1, h2⟩ := h
      exact Or.inl ⟨u, v, rfl, h1, n, h2⟩
  · rintro (⟨u, v, rfl, h1, n, h2⟩ | h)
    · exact ⟨n + 1, u, v, rfl, h1, h2⟩
    · exact ⟨0, h⟩

theorem spells_atLeastOnce (label : Nat) (greedy : Bool) (body : Node) :
    (atLeastOnce label greedy body).Spells =
      body.Spells.seq (again label greedy body).Spells := by
  funext before word after
  refine propext ⟨?_, ?_⟩
  · rintro ⟨n, u, v, rfl, h1, h2⟩
    exact ⟨u, v, rfl, h1, n, h2⟩
  · rintro ⟨u, v, rfl, h1, n, h2⟩
    exact ⟨n, u, v, rfl, h1, h2⟩

end Node

/-- The words of nodes that are run one after the other. -/
def spellsAll : List Node → Language
  | [] => nothing
  | node :: nodes => node.Spells.seq (spellsAll nodes)

namespace Pattern

/-- The words of a pattern. -/
def Spells : Pattern → Language
  | empty => nothing
  | one set => fun _ word _ => ∃ c, word = [c] ∧ set.contains c = true
  | assert condition => fun before word after =>
    word = [] ∧ condition.holds before after.head? = true
  | group _ body => body.Spells
  | seq a b => a.Spells.seq b.Spells
  | alt a b => a.Spells.or b.Spells
  | rounds low high _ body => fun before word after =>
    ∃ n, low ≤ n ∧ (∀ most ∈ high, n ≤ max low most) ∧ body.Spells.power n before word after

/-! ### Programs have the words of their patterns -/

/-- A builder of nodes that all have the same words. -/
def BuildsWords (build : StateM Nat Node) (language : Language) : Prop :=
  ∀ n, (build.run n).1.Spells = language

variable {build : StateM Nat Node} {language : Language}

theorem spells_optional (greedy : Bool) (label : Nat) (node : Node) :
    (optional greedy label node).Spells = node.Spells.or nothing := by
  rw [optional]
  split
  · rfl
  · exact or_comm _ _

theorem spells_copies (h : BuildsWords build language) (count : Nat) :
    ∀ (last : Node) (n : Nat), ((copies build count last).run n).1.Spells =
      (language.power count).seq last.Spells := by
  induction count with
  | zero => exact fun last n => (nothing_seq _).symm
  | succ count ih =>
    intro last n
    have hnext := ih (.seq (build.run n).1 last) (build.run n).2
    rw [Node.Spells, h n, ← seq_assoc] at hnext
    have hpower : (language.power count).seq language = language.power (count + 1) := by
      rw [← power_add language count 1]
      simp [power]
    rw [hpower] at hnext
    exact hnext

/-- Up to a number of words. -/
def upTo (language : Language) (most : Nat) : Language := fun before word after =>
  ∃ n ≤ most, language.power n before word after

theorem upTo_zero : upTo language 0 = nothing := by
  funext before word after
  refine propext ⟨?_, fun h => ⟨0, le_rfl, h⟩⟩
  rintro ⟨n, hn, h⟩
  rwa [Nat.le_zero.1 hn] at h

theorem upTo_succ (most : Nat) :
    upTo language (most + 1) = (language.seq (upTo language most)).or nothing := by
  funext before word after
  refine propext ⟨?_, ?_⟩
  · rintro ⟨_ | n, hn, h⟩
    · exact Or.inr h
    · obtain ⟨u, v, rfl, h1, h2⟩ := h
      exact Or.inl ⟨u, v, rfl, h1, n, by omega, h2⟩
  · rintro (⟨u, v, rfl, h1, n, hn, h2⟩ | h)
    · exact ⟨n + 1, by omega, u, v, rfl, h1, h2⟩
    · exact ⟨0, by omega, h⟩

theorem spells_optionalCopies (greedy : Bool) (h : BuildsWords build language) (count : Nat) :
    ∀ (rest : Node) (most n : Nat), rest.Spells = upTo language most →
      ((optionalCopies greedy build count rest).run n).1.Spells =
        upTo language (most + count) := by
  induction count with
  | zero => exact fun rest most n hr => hr
  | succ count ih =>
    intro rest most n hr
    have := ih (optional greedy n (.seq (build.run (n + 1)).1 rest)) (most + 1)
      (build.run (n + 1)).2 (by rw [spells_optional, Node.Spells, h, hr, upTo_succ])
    rw [Nat.add_right_comm, Nat.add_assoc] at this
    exact this

theorem spells_oneOrMore (greedy : Bool) (h : BuildsWords build language) (n : Nat) :
    ((oneOrMore greedy build).run n).1.Spells = fun before word after =>
      ∃ n, language.power (n + 1) before word after := by
  rw [run_oneOrMore, Node.Spells, h]

theorem spells_anyNumber (greedy nullable : Bool) (h : BuildsWords build language) (n : Nat) :
    ((anyNumber greedy nullable build).run n).1.Spells = fun before word after =>
      ∃ n, language.power n before word after := by
  cases nullable with
  | false =>
    rw [run_anyNumber_false, Node.Spells, h]
  | true =>
    rw [run_anyNumber_true, spells_optional, spells_oneOrMore greedy h]
    funext before word after
    refine propext ⟨?_, ?_⟩
    · rintro (⟨n, h⟩ | h)
      · exact ⟨n + 1, h⟩
      · exact ⟨0, h⟩
    · rintro ⟨_ | n, h⟩
      · exact Or.inr h
      · exact Or.inl ⟨n, h⟩

theorem spells_build (pattern : Pattern) : BuildsWords pattern.build pattern.Spells := by
  induction pattern with
  | empty => exact fun n => rfl
  | one set => exact fun n => rfl
  | assert condition => exact fun n => rfl
  | group name body ih => exact ih
  | seq a b iha ihb =>
    intro n
    rw [run_seq, Node.Spells, iha, ihb, Spells]
  | alt a b iha ihb =>
    intro n
    rw [run_alt, Node.Spells, iha, ihb, Spells]
  | rounds low high greedy body ih =>
    intro n
    cases high with
    | some most =>
      have hrest := spells_optionalCopies greedy ih (most - low) .empty 0 n
        (by rw [upTo_zero]; rfl)
      have hcopies := spells_copies ih low
        ((optionalCopies greedy body.build (most - low) .empty).run n).1
        ((optionalCopies greedy body.build (most - low) .empty).run n).2
      rw [hrest, Nat.zero_add] at hcopies
      rw [run_rounds_some, hcopies]
      funext before word after
      refine propext ⟨?_, ?_⟩
      · rintro ⟨u, v, rfl, h1, k, hk, h2⟩
        refine ⟨low + k, by omega, by rintro _ ⟨⟩; omega, ?_⟩
        rw [← power_add]
        exact ⟨u, v, rfl, h1, h2⟩
      · rintro ⟨k, hlow, hmost, h⟩
        have := hmost most rfl
        obtain ⟨d, rfl⟩ := Nat.exists_eq_add_of_le hlow
        rw [← power_add] at h
        obtain ⟨u, v, rfl, h1, h2⟩ := h
        exact ⟨u, v, rfl, h1, d, by omega, h2⟩
    | none =>
      rcases low with _ | low
      · rw [run_rounds_zero, spells_anyNumber greedy body.matchesNothing ih]
        simp [Spells]
      · have hcopies := spells_copies ih low ((oneOrMore greedy body.build).run n).1
          ((oneOrMore greedy body.build).run n).2
        rw [spells_oneOrMore greedy ih] at hcopies
        rw [run_rounds_succ, hcopies]
        funext before word after
        refine propext ⟨?_, ?_⟩
        · rintro ⟨u, v, rfl, h1, k, h2⟩
          refine ⟨low + (k + 1), by omega, by simp, ?_⟩
          rw [← power_add]
          exact ⟨u, v, rfl, h1, h2⟩
        · rintro ⟨k, hlow, -, h⟩
          obtain ⟨d, rfl⟩ := Nat.exists_eq_add_of_le hlow
          rw [Nat.add_assoc, Nat.add_comm 1 d, ← power_add] at h
          obtain ⟨u, v, rfl, h1, h2⟩ := h
          exact ⟨u, v, rfl, h1, d, h2⟩

/-- A program has the words of its pattern. -/
theorem spells_program (pattern : Pattern) : pattern.program.root.Spells = pattern.Spells :=
  spells_build pattern 0

end Pattern

end StyleTokens

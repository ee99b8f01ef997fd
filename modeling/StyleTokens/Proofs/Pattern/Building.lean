/-
What holds of every program.

A search rests on four facts about the program of a pattern: no label is given
out twice, no label is beyond the bound, what a thread has to do before it
waits for a character or meets a label is bounded by the size of the program,
and starred bodies are as able to match nothing as in the pattern.

* `Node.load` — a bound for the steps of a thread between two labels;
* `Node.starsConsume` — no starred body can match nothing;
* `Node.Built` — the facts about a node that was built;
* `Program.Sound`, `Pattern.program_sound` — every program of a pattern has them;
* `Pattern.leaves_build` — a program asks no more of a text than its pattern.
-/
import Mathlib.Tactic
import StyleTokens.Pattern.Program

namespace StyleTokens

namespace Node

/-- The labels of a node. -/
def labels : Node → List Nat
  | empty | one _ | assert _ => []
  | group _ body => body.labels
  | seq a b => a.labels ++ b.labels
  | choice label a b => label :: (a.labels ++ b.labels)
  | again label _ body => label :: body.labels
  | atLeastOnce label _ body => label :: body.labels

/-- Whether the node can match without consuming a character. -/
def matchesNothing : Node → Bool
  | empty => true
  | one _ => false
  | assert _ => true
  | group _ body => body.matchesNothing
  | seq a b => a.matchesNothing && b.matchesNothing
  | choice _ a b => a.matchesNothing || b.matchesNothing
  | again _ _ _ => true
  | atLeastOnce _ _ body => body.matchesNothing

/-- Whether every round of a starred body consumes a character. -/
def starsConsume : Node → Bool
  | empty | one _ | assert _ => true
  | group _ body => body.starsConsume
  | seq a b | choice _ a b => a.starsConsume && b.starsConsume
  | again _ _ body | atLeastOnce _ _ body => !body.matchesNothing && body.starsConsume

/-- The steps that a node takes until the next label. -/
def weight : Node → Nat
  | empty | one _ | assert _ => 1
  | group _ body => body.weight + 2
  | seq a b => a.weight + b.weight + 1
  | choice _ _ _ | again _ _ _ => 1
  | atLeastOnce _ _ body => body.weight + 2

/-- The steps that a node takes between any two labels, or more. -/
def load : Node → Nat
  | empty | one _ | assert _ => 1
  | group _ body => body.load + 2
  | seq a b | choice _ a b => a.load + b.load + 1
  | again _ _ body => body.load + 1
  | atLeastOnce _ _ body => body.load + 2

theorem weight_le_load (node : Node) : node.weight ≤ node.load := by
  induction node <;> simp only [weight, load] <;> omega

/-- The facts about a node with labels from `low` on and below `high`, built for
a pattern of a size that can match nothing or not. -/
structure Built (low high : Nat) (nullable : Bool) (consumes : Prop) (size : Nat)
    (node : Node) : Prop where
  nodup : node.labels.Nodup
  within : ∀ label ∈ node.labels, low ≤ label ∧ label < high
  load_le : node.load ≤ 2 * size
  matchesNothing_eq : node.matchesNothing = nullable
  starsConsume : consumes → node.starsConsume = true

namespace Built

variable {low mid high size m : Nat} {nullable n : Bool} {consumes : Prop} {node a b : Node}

theorem mono (h : Built low high nullable consumes size node) {low' high' size' : Nat}
    (hlow : low' ≤ low) (hhigh : high ≤ high') (hsize : size ≤ size') :
    Built low' high' nullable consumes size' node := by
  refine ⟨h.nodup, fun label hl => ?_, h.load_le.trans (by omega), h.matchesNothing_eq,
    h.starsConsume⟩
  have := h.within label hl
  omega

/-- Facts that are needed under a stronger condition only. -/
theorem imp (h : Built low high nullable consumes size node) {consumes' : Prop}
    (hc : consumes' → consumes) : Built low high nullable consumes' size node :=
  ⟨h.nodup, h.within, h.load_le, h.matchesNothing_eq, fun hc' => h.starsConsume (hc hc')⟩

/-- Nodes that were built one after the other share no label. -/
theorem disjoint (ha : Built low mid nullable consumes size a)
    (hb : Built mid high n consumes m b) : List.Disjoint a.labels b.labels := by
  intro x hx hy
  have h1 := ha.within x hx
  have h2 := hb.within x hy
  omega

theorem not_mem_below (h : Built low high nullable consumes size node) {label : Nat}
    (hl : label < low) : label ∉ node.labels := fun hm => by
  have := h.within label hm
  omega

theorem not_mem_above (h : Built low high nullable consumes size node) {label : Nat}
    (hl : high ≤ label) : label ∉ node.labels := fun hm => by
  have := h.within label hm
  omega

theorem empty (low high : Nat) (consumes : Prop) : Built low high true consumes 1 .empty :=
  ⟨List.nodup_nil, by simp [labels], by simp [load], rfl, fun _ => rfl⟩

theorem seq (ha : Built low high nullable consumes size a) (hb : Built low high n consumes m b)
    (hd : List.Disjoint a.labels b.labels) :
    Built low high (nullable && n) consumes (size + m + 1) (.seq a b) := by
  refine ⟨ha.nodup.append hb.nodup hd, fun label hl => ?_, ?_, ?_, fun h => ?_⟩
  · exact (List.mem_append.1 hl).elim (ha.within label) (hb.within label)
  · have h1 := ha.load_le
    have h2 := hb.load_le
    rw [load]
    omega
  · rw [matchesNothing, ha.matchesNothing_eq, hb.matchesNothing_eq]
  · rw [Node.starsConsume, ha.starsConsume h, hb.starsConsume h, Bool.and_true]

theorem choice {label : Nat} (hl : low ≤ label ∧ label < high)
    (ha : Built low high nullable consumes size a) (hb : Built low high n consumes m b)
    (hd : List.Disjoint a.labels b.labels) (hla : label ∉ a.labels) (hlb : label ∉ b.labels) :
    Built low high (nullable || n) consumes (size + m + 1) (.choice label a b) := by
  refine ⟨List.nodup_cons.2 ⟨fun hm => ?_, ha.nodup.append hb.nodup hd⟩, fun other hm => ?_, ?_,
    ?_, fun h => ?_⟩
  · exact (List.mem_append.1 hm).elim hla hlb
  · rcases List.mem_cons.1 hm with rfl | hm
    · exact hl
    · exact (List.mem_append.1 hm).elim (ha.within other) (hb.within other)
  · have h1 := ha.load_le
    have h2 := hb.load_le
    rw [load]
    omega
  · rw [matchesNothing, ha.matchesNothing_eq, hb.matchesNothing_eq]
  · rw [Node.starsConsume, ha.starsConsume h, hb.starsConsume h, Bool.and_true]

/-- A choice between a node and nothing. -/
theorem optional {label : Nat} (hl : low ≤ label ∧ label < high) (greedy : Bool)
    (h : Built low high nullable consumes size node) (hla : label ∉ node.labels) :
    Built low high true consumes (size + 2) (Pattern.optional greedy label node) := by
  have hempty := Built.empty low high consumes
  rw [Pattern.optional]
  split
  · have := h.choice hl hempty (by simp [labels]) hla (by simp [labels])
    rwa [Bool.or_true] at this
  · have := hempty.choice hl h (by simp [labels]) (by simp [labels]) hla
    rw [Bool.true_or] at this
    exact this.mono le_rfl le_rfl (by omega)

theorem labels_star {label : Nat} (hl : low ≤ label ∧ label < high)
    (h : Built low high nullable consumes size node) (hla : label ∉ node.labels) :
    (label :: node.labels).Nodup ∧ ∀ other ∈ label :: node.labels, low ≤ other ∧ other < high := by
  refine ⟨List.nodup_cons.2 ⟨hla, h.nodup⟩, fun other hm => ?_⟩
  rcases List.mem_cons.1 hm with rfl | hm
  · exact hl
  · exact h.within other hm

/-- A starred body. -/
theorem again {label : Nat} (hl : low ≤ label ∧ label < high) (greedy : Bool)
    (h : Built low high false consumes size node) (hla : label ∉ node.labels) :
    Built low high true consumes (size + 1) (.again label greedy node) := by
  obtain ⟨h1, h2⟩ := h.labels_star hl hla
  refine ⟨h1, h2, ?_, rfl, fun hc => ?_⟩
  · have := h.load_le
    rw [load]
    omega
  · rw [Node.starsConsume, h.matchesNothing_eq, h.starsConsume hc]
    rfl

theorem atLeastOnce {label : Nat} (hl : low ≤ label ∧ label < high) (greedy : Bool)
    (hn : consumes → nullable = false) (h : Built low high nullable consumes size node)
    (hla : label ∉ node.labels) :
    Built low high nullable consumes (size + 1) (.atLeastOnce label greedy node) := by
  obtain ⟨h1, h2⟩ := h.labels_star hl hla
  refine ⟨h1, h2, ?_, ?_, fun hc => ?_⟩
  · have := h.load_le
    rw [load]
    omega
  · rw [matchesNothing, h.matchesNothing_eq]
  · rw [Node.starsConsume, h.matchesNothing_eq, h.starsConsume hc, hn hc]
    rfl

end Built

end Node

namespace Pattern

open Node (Built)

/-! ### What builders return -/

section Run

variable (build : StateM Nat Node) (n : Nat)

theorem run_copies (count : Nat) (last : Node) :
    (copies build (count + 1) last).run n =
      (copies build count (.seq (build.run n).1 last)).run (build.run n).2 := rfl

theorem run_optionalCopies (greedy : Bool) (count : Nat) (rest : Node) :
    (optionalCopies greedy build (count + 1) rest).run n =
      (optionalCopies greedy build count
        (optional greedy n (.seq (build.run (n + 1)).1 rest))).run (build.run (n + 1)).2 := rfl

theorem run_oneOrMore (greedy : Bool) :
    (oneOrMore greedy build).run n =
      (.atLeastOnce n greedy (build.run (n + 1)).1, (build.run (n + 1)).2) := rfl

theorem run_anyNumber_false (greedy : Bool) :
    (anyNumber greedy false build).run n =
      (.again n greedy (build.run (n + 1)).1, (build.run (n + 1)).2) := rfl

theorem run_anyNumber_true (greedy : Bool) :
    (anyNumber greedy true build).run n =
      (optional greedy n ((oneOrMore greedy build).run (n + 1)).1,
        ((oneOrMore greedy build).run (n + 1)).2) := rfl

theorem run_seq (a b : Pattern) :
    (seq a b).build.run n =
      (.seq (a.build.run n).1 (b.build.run (a.build.run n).2).1,
        (b.build.run (a.build.run n).2).2) := rfl

theorem run_alt (a b : Pattern) :
    (alt a b).build.run n =
      (.choice n (a.build.run (n + 1)).1 (b.build.run (a.build.run (n + 1)).2).1,
        (b.build.run (a.build.run (n + 1)).2).2) := rfl

theorem run_group (name : String) (body : Pattern) :
    (group name body).build.run n = (.group name (body.build.run n).1, (body.build.run n).2) := rfl

theorem run_rounds_some (low most : Nat) (greedy : Bool) (body : Pattern) :
    (rounds low (some most) greedy body).build.run n =
      (copies body.build low
        ((optionalCopies greedy body.build (most - low) .empty).run n).1).run
        ((optionalCopies greedy body.build (most - low) .empty).run n).2 := rfl

theorem run_rounds_zero (greedy : Bool) (body : Pattern) :
    (rounds 0 none greedy body).build.run n =
      (anyNumber greedy body.matchesNothing body.build).run n := rfl

theorem run_rounds_succ (low : Nat) (greedy : Bool) (body : Pattern) :
    (rounds (low + 1) none greedy body).build.run n =
      (copies body.build low ((oneOrMore greedy body.build).run n).1).run
        ((oneOrMore greedy body.build).run n).2 := rfl

end Run

/-! ### The facts about what is built -/

/-- Whether every round of a starred body consumes a character. -/
def starsConsume : Pattern → Bool
  | empty | one _ | assert _ => true
  | group _ body => body.starsConsume
  | seq a b | alt a b => a.starsConsume && b.starsConsume
  | rounds _ high _ body => (high.isSome || !body.matchesNothing) && body.starsConsume

/-- A builder of nodes with the facts of `Node.Built`. -/
def Builds (build : StateM Nat Node) (nullable : Bool) (consumes : Prop) (size : Nat) : Prop :=
  ∀ n, n ≤ (build.run n).2 ∧ Built n (build.run n).2 nullable consumes size (build.run n).1

variable {build : StateM Nat Node} {nullable : Bool} {consumes : Prop} {size : Nat}

theorem built_copies (h : Builds build nullable consumes size) (count : Nat) :
    ∀ (last : Node) (low n m : Nat) (lastNullable : Bool), low ≤ n →
      Built low n lastNullable consumes m last →
      n ≤ ((copies build count last).run n).2 ∧
      Built low ((copies build count last).run n).2 ((count == 0 || nullable) && lastNullable)
        consumes (count * (size + 1) + m) ((copies build count last).run n).1 := by
  induction count with
  | zero =>
    intro last low n m lastNullable _ hlast
    rw [Nat.zero_mul, Nat.zero_add]
    exact ⟨le_rfl, hlast⟩
  | succ count ih =>
    intro last low n m lastNullable hle hlast
    obtain ⟨hn, hnode⟩ := h n
    have hseq := (hnode.mono hle le_rfl le_rfl).seq (hlast.mono le_rfl hn le_rfl)
      (hlast.disjoint hnode).symm
    obtain ⟨h1, h2⟩ := ih _ low (build.run n).2 _ _ (by omega) hseq
    rw [run_copies]
    refine ⟨hn.trans h1, ?_⟩
    have hnull : ((count == 0 || nullable) && (nullable && lastNullable)) =
        ((count + 1 == 0 || nullable) && lastNullable) := by
      cases nullable <;> simp
    rw [hnull] at h2
    exact h2.mono le_rfl le_rfl (by rw [Nat.succ_mul]; omega)

theorem built_optionalCopies (greedy : Bool) (h : Builds build nullable consumes size)
    (count : Nat) : ∀ (rest : Node) (low n m : Nat), low ≤ n →
      Built low n true consumes m rest →
      n ≤ ((optionalCopies greedy build count rest).run n).2 ∧
      Built low ((optionalCopies greedy build count rest).run n).2 true consumes
        (count * (size + 3) + m) ((optionalCopies greedy build count rest).run n).1 := by
  induction count with
  | zero =>
    intro rest low n m _ hrest
    rw [Nat.zero_mul, Nat.zero_add]
    exact ⟨le_rfl, hrest⟩
  | succ count ih =>
    intro rest low n m hle hrest
    obtain ⟨hn, hnode⟩ := h (n + 1)
    have hseq := (hnode.mono (by omega) le_rfl le_rfl).seq (hrest.mono le_rfl (by omega) le_rfl)
      (hrest.mono le_rfl (Nat.le_succ n) le_rfl |>.disjoint hnode).symm
    have hfresh : n ∉ (Node.seq (build.run (n + 1)).1 rest).labels := by
      rw [Node.labels, List.mem_append, not_or]
      exact ⟨hnode.not_mem_below (Nat.lt_succ_self n), hrest.not_mem_above le_rfl⟩
    obtain ⟨h1, h2⟩ := ih _ low (build.run (n + 1)).2 _ (by omega)
      (hseq.optional ⟨hle, by omega⟩ greedy hfresh)
    rw [run_optionalCopies]
    refine ⟨by omega, ?_⟩
    exact h2.mono le_rfl le_rfl (by rw [Nat.succ_mul]; omega)

theorem builds_oneOrMore (greedy : Bool) (hn : consumes → nullable = false)
    (h : Builds build nullable consumes size) :
    Builds (oneOrMore greedy build) nullable consumes (size + 1) := by
  intro n
  obtain ⟨hle, hnode⟩ := h (n + 1)
  rw [run_oneOrMore]
  exact ⟨by omega, (hnode.mono (Nat.le_succ n) le_rfl le_rfl).atLeastOnce ⟨le_rfl, hle⟩ greedy hn
    (hnode.not_mem_below (Nat.lt_succ_self n))⟩

theorem builds_anyNumber (greedy : Bool) (hn : consumes → nullable = false)
    (h : Builds build nullable consumes size) :
    Builds (anyNumber greedy nullable build) true consumes (size + 3) := by
  intro n
  cases nullable with
  | false =>
    obtain ⟨hle, hnode⟩ := h (n + 1)
    rw [run_anyNumber_false]
    refine ⟨by omega, Built.mono ?_ le_rfl le_rfl (by omega : size + 1 ≤ size + 3)⟩
    exact (hnode.mono (Nat.le_succ n) le_rfl le_rfl).again ⟨le_rfl, hle⟩ greedy
      (hnode.not_mem_below (Nat.lt_succ_self n))
  | true =>
    obtain ⟨hle, hnode⟩ := builds_oneOrMore greedy hn h (n + 1)
    rw [run_anyNumber_true]
    exact ⟨by omega, (hnode.mono (Nat.le_succ n) le_rfl le_rfl).optional ⟨le_rfl, hle⟩ greedy
      (hnode.not_mem_below (Nat.lt_succ_self n))⟩

theorem builds_imp {consumes' : Prop} (h : Builds build nullable consumes size)
    (hc : consumes' → consumes) : Builds build nullable consumes' size :=
  fun n => ⟨(h n).1, (h n).2.imp hc⟩

theorem builds_build (pattern : Pattern) :
    Builds pattern.build pattern.matchesNothing (pattern.starsConsume = true) pattern.nodes := by
  induction pattern with
  | empty => exact fun n => ⟨le_rfl, .empty n n _⟩
  | one set => exact fun n => ⟨le_rfl, List.nodup_nil, nofun, Nat.le_succ 1, rfl, fun _ => rfl⟩
  | assert condition =>
    exact fun n => ⟨le_rfl, List.nodup_nil, nofun, Nat.le_succ 1, rfl, fun _ => rfl⟩
  | group name body ih =>
    intro n
    obtain ⟨hle, h⟩ := ih n
    rw [run_group]
    refine ⟨hle, h.nodup, h.within, ?_, h.matchesNothing_eq, h.starsConsume⟩
    have := h.load_le
    rw [Node.load, nodes]
    omega
  | seq a b iha ihb =>
    intro n
    have hc : ∀ {p : Prop}, (a.seq b).starsConsume = true → (a.starsConsume = true →
        b.starsConsume = true → p) → p := fun h hp => by
      rw [starsConsume, Bool.and_eq_true] at h
      exact hp h.1 h.2
    obtain ⟨hle, ha⟩ := builds_imp iha (fun h => hc h fun h _ => h) n
    obtain ⟨hle', hb⟩ := builds_imp ihb (fun h => hc h fun _ h => h) (a.build.run n).2
    rw [run_seq]
    exact ⟨hle.trans hle', (ha.mono le_rfl hle' le_rfl).seq (hb.mono hle le_rfl le_rfl)
      (ha.disjoint hb)⟩
  | alt a b iha ihb =>
    intro n
    have hc : ∀ {p : Prop}, (a.alt b).starsConsume = true → (a.starsConsume = true →
        b.starsConsume = true → p) → p := fun h hp => by
      rw [starsConsume, Bool.and_eq_true] at h
      exact hp h.1 h.2
    obtain ⟨hle, ha⟩ := builds_imp iha (fun h => hc h fun h _ => h) (n + 1)
    obtain ⟨hle', hb⟩ := builds_imp ihb (fun h => hc h fun _ h => h) (a.build.run (n + 1)).2
    rw [run_alt]
    exact ⟨by omega, (ha.mono (Nat.le_succ n) hle' le_rfl).choice ⟨le_rfl, by omega⟩
      (hb.mono (by omega) le_rfl le_rfl) (ha.disjoint hb)
      (ha.not_mem_below (Nat.lt_succ_self n)) (hb.not_mem_below hle)⟩
  | rounds low high greedy body ih =>
    intro n
    have hbody : Builds body.build body.matchesNothing
        ((rounds low high greedy body).starsConsume = true) body.nodes :=
      builds_imp ih fun h => (Bool.and_eq_true_iff.1 h).2
    cases high with
    | some most =>
      obtain ⟨hle, hrest⟩ := built_optionalCopies greedy hbody (most - low) .empty n n 1 le_rfl
        (.empty n n _)
      obtain ⟨hle', h⟩ := built_copies hbody low _ n _ _ true hle hrest
      rw [run_rounds_some]
      refine ⟨hle.trans hle', ?_⟩
      rw [Bool.and_true] at h
      exact h.mono le_rfl le_rfl (by rw [nodes, Option.getD_some]; omega)
    | none =>
      have hn : (rounds low none greedy body).starsConsume = true →
          body.matchesNothing = false := fun h => by
        simpa using (Bool.and_eq_true_iff.1 h).1
      rcases low with _ | low
      · obtain ⟨hle, h⟩ := builds_anyNumber greedy hn hbody n
        rw [run_rounds_zero]
        exact ⟨hle, h.mono le_rfl le_rfl (by rw [nodes, Option.getD_none]; omega)⟩
      · obtain ⟨hle, hlast⟩ := builds_oneOrMore greedy hn hbody n
        obtain ⟨hle', h⟩ := built_copies hbody low _ n _ _ _ hle hlast
        rw [run_rounds_succ]
        refine ⟨hle.trans hle', ?_⟩
        have hnull : ((low == 0 || body.matchesNothing) && body.matchesNothing) =
            (rounds (low + 1) none greedy body).matchesNothing := by
          rw [matchesNothing]
          cases body.matchesNothing <;> simp
        rw [hnull] at h
        refine h.mono le_rfl le_rfl ?_
        rw [nodes, Option.getD_none, Nat.succ_mul]
        omega

end Pattern

/-- What a search needs of a program. -/
structure Program.Sound (program : Program) : Prop where
  nodup : program.root.labels.Nodup
  labels_lt : ∀ label ∈ program.root.labels, label < program.labels
  load_le : program.root.load ≤ 2 * program.size

theorem Pattern.program_sound (pattern : Pattern) : pattern.program.Sound := by
  obtain ⟨-, h⟩ := pattern.builds_build 0
  exact ⟨h.nodup, fun label hl => (h.within label hl).2, h.load_le⟩

theorem Pattern.program_matchesNothing (pattern : Pattern) :
    pattern.program.root.matchesNothing = pattern.matchesNothing :=
  (pattern.builds_build 0).2.matchesNothing_eq

theorem Pattern.program_starsConsume {pattern : Pattern} (h : pattern.starsConsume = true) :
    pattern.program.root.starsConsume = true :=
  (pattern.builds_build 0).2.starsConsume h

/-! ### Leaves -/

/-- What a pattern asks of a text at one place, and the names of its groups. -/
inductive Leaf
  | set (set : CharSet)
  | condition (condition : Assertion)
  | name (name : String)
  deriving DecidableEq

/-- The leaves of a node. -/
def Node.leaves : Node → List Leaf
  | empty => []
  | one set => [.set set]
  | assert condition => [.condition condition]
  | group name body => .name name :: body.leaves
  | seq a b | choice _ a b => a.leaves ++ b.leaves
  | again _ _ body | atLeastOnce _ _ body => body.leaves

namespace Pattern

/-- The leaves of a pattern. -/
def leaves : Pattern → List Leaf
  | empty => []
  | one set => [.set set]
  | assert condition => [.condition condition]
  | group name body => .name name :: body.leaves
  | seq a b | alt a b => a.leaves ++ b.leaves
  | rounds _ _ _ body => body.leaves

/-- A builder of nodes with no other leaves than these. -/
def BuildsLeaves (build : StateM Nat Node) (leaves : List Leaf) : Prop :=
  ∀ n, (build.run n).1.leaves ⊆ leaves

variable {build : StateM Nat Node} {allowed : List Leaf}

theorem leaves_optional {greedy : Bool} {label : Nat} {node : Node} (h : node.leaves ⊆ allowed) :
    (optional greedy label node).leaves ⊆ allowed := by
  rw [optional]
  split <;> simpa [Node.leaves] using h

theorem leaves_copies (h : BuildsLeaves build allowed) (count : Nat) : ∀ (last : Node) (n : Nat),
    last.leaves ⊆ allowed → ((copies build count last).run n).1.leaves ⊆ allowed := by
  induction count with
  | zero => exact fun last n hl => hl
  | succ count ih =>
    intro last n hl
    rw [run_copies]
    exact ih _ _ (List.append_subset.2 ⟨h n, hl⟩)

theorem leaves_optionalCopies (greedy : Bool) (h : BuildsLeaves build allowed) (count : Nat) :
    ∀ (rest : Node) (n : Nat), rest.leaves ⊆ allowed →
      ((optionalCopies greedy build count rest).run n).1.leaves ⊆ allowed := by
  induction count with
  | zero => exact fun rest n hr => hr
  | succ count ih =>
    intro rest n hr
    rw [run_optionalCopies]
    exact ih _ _ (leaves_optional (List.append_subset.2 ⟨h (n + 1), hr⟩))

theorem leaves_anyNumber (greedy nullable : Bool) (h : BuildsLeaves build allowed) :
    BuildsLeaves (anyNumber greedy nullable build) allowed := by
  intro n
  cases nullable with
  | false => exact h (n + 1)
  | true =>
    rw [run_anyNumber_true]
    exact leaves_optional (h (n + 2))

theorem leaves_build (pattern : Pattern) : BuildsLeaves pattern.build pattern.leaves := by
  induction pattern with
  | empty => exact fun n => List.Subset.refl _
  | one set => exact fun n => List.Subset.refl _
  | assert condition => exact fun n => List.Subset.refl _
  | group name body ih => exact fun n => List.cons_subset_cons _ (ih n)
  | seq a b iha ihb =>
    intro n
    rw [run_seq]
    exact List.append_subset.2 ⟨List.subset_append_of_subset_left _ (iha n),
      List.subset_append_of_subset_right _ (ihb _)⟩
  | alt a b iha ihb =>
    intro n
    rw [run_alt]
    exact List.append_subset.2 ⟨List.subset_append_of_subset_left _ (iha (n + 1)),
      List.subset_append_of_subset_right _ (ihb _)⟩
  | rounds low high greedy body ih =>
    intro n
    cases high with
    | some most =>
      rw [run_rounds_some]
      exact leaves_copies ih low _ _ (leaves_optionalCopies greedy ih _ _ _ (by simp [Node.leaves]))
    | none =>
      rcases low with _ | low
      · rw [run_rounds_zero]
        exact leaves_anyNumber greedy body.matchesNothing ih n
      · rw [run_rounds_succ]
        exact leaves_copies ih low _ _ (ih (n + 1))

end Pattern

end StyleTokens

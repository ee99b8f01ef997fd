/-
What a thread leads to when it is followed alone.

A thread that is followed alone tries the ways of its program in order of
preference and stops at the first that leads to a match.  The search itself
follows many threads side by side and never passes a label twice at one place;
that it finds the same match is shown in `Proofs.Pattern.Settling`.

* `Node.Goes`, `Node.Forks` — the nodes that go on in one way and in two;
* `Thread.move` — what a thread does next; `settle_succ` — a step of `settle`,
  by the move of its first thread;
* `Thread.Yields` — the match that a thread leads to, or that it leads to none;
* `Thread.Yields.spells`, `Thread.Yields.not_spells` — a match covers a word of
  the nodes of the thread, and where there is none, no such word stands;
* `Thread.exists_yields` — if starred bodies consume characters, the thread comes
  to an end;
* `Thread.Yields.unique` — in one way only.
-/
import StyleTokens.Pattern.Search
import StyleTokens.Proofs.Pattern.Language

namespace StyleTokens

open Language

/-! ### Moves -/

/-- What running a node comes to. -/
inductive Step
  /-- It waits for a character. -/
  | wait
  /-- Its condition does not hold. -/
  | dead
  | go (goals : List Goal)
  /-- It passes a label and goes on in two ways, the first preferred. -/
  | fork (label : Nat) (first second : List Goal)

/-- What running a node at a place comes to. -/
def Node.step (before after : Option Char) (offset : Nat) : Node → Step
  | empty => .go []
  | one _ => .wait
  | assert condition => if condition.holds before after then .go [] else .dead
  | group name body => .go [.run body, .close name offset]
  | seq a b => .go [.run a, .run b]
  | choice label a b => .fork label [.run a] [.run b]
  | again label greedy body =>
    if greedy then .fork label [.run body, .run (again label greedy body)] []
    else .fork label [] [.run body, .run (again label greedy body)]
  | atLeastOnce label greedy body => .go [.run body, .run (again label greedy body)]

/-- The nodes that go on in one way, with what they go on with. -/
inductive Node.Goes (before after : Option Char) (offset : Nat) : Node → List Goal → Prop
  | empty : Goes before after offset .empty []
  | assert {condition : Assertion} (h : condition.holds before after = true) :
    Goes before after offset (.assert condition) []
  | group {name : String} {body : Node} :
    Goes before after offset (.group name body) [.run body, .close name offset]
  | seq {a b : Node} : Goes before after offset (.seq a b) [.run a, .run b]
  | atLeastOnce {label : Nat} {greedy : Bool} {body : Node} :
    Goes before after offset (.atLeastOnce label greedy body)
      [.run body, .run (.again label greedy body)]

/-- The nodes that go on in two ways, with the label that they pass. -/
inductive Node.Forks : Node → (label : Nat) → (first second : List Goal) → Prop
  | choice {label : Nat} {a b : Node} : Forks (.choice label a b) label [.run a] [.run b]
  | greedy {label : Nat} {body : Node} :
    Forks (.again label true body) label [.run body, .run (.again label true body)] []
  | lazy {label : Nat} {body : Node} :
    Forks (.again label false body) label [] [.run body, .run (.again label false body)]

section

variable {before after : Option Char} {offset : Nat} {node : Node}

theorem Node.step_eq_wait_iff :
    node.step before after offset = .wait ↔ ∃ set, node = .one set := by
  cases node with
  | assert condition =>
    rw [step]
    split <;> simp
  | again label greedy body => cases greedy <;> simp [step]
  | _ => simp [step]

theorem Node.step_eq_dead_iff : node.step before after offset = .dead ↔
    ∃ condition, node = .assert condition ∧ ¬ condition.holds before after = true := by
  cases node with
  | assert condition =>
    rw [step]
    split <;> simp [*]
  | again label greedy body => cases greedy <;> simp [step]
  | _ => simp [step]

theorem Node.step_eq_go_iff {goals : List Goal} :
    node.step before after offset = .go goals ↔ node.Goes before after offset goals := by
  constructor
  · intro h
    cases node with
    | empty =>
      obtain rfl := Step.go.inj h
      exact .empty
    | one set => cases h
    | assert condition =>
      rw [step] at h
      split at h
      · next hc =>
        obtain rfl := Step.go.inj h
        exact .assert hc
      · cases h
    | group name body =>
      obtain rfl := Step.go.inj h
      exact .group
    | seq a b =>
      obtain rfl := Step.go.inj h
      exact .seq
    | choice label a b => cases h
    | again label greedy body => cases greedy <;> cases h
    | atLeastOnce label greedy body =>
      obtain rfl := Step.go.inj h
      exact .atLeastOnce
  · intro h
    cases h with
    | assert hc => exact if_pos hc
    | _ => rfl

theorem Node.step_eq_fork_iff {label : Nat} {first second : List Goal} :
    node.step before after offset = .fork label first second ↔
      node.Forks label first second := by
  constructor
  · intro h
    cases node with
    | choice label' a b =>
      obtain ⟨rfl, rfl, rfl⟩ := Step.fork.inj h
      exact .choice
    | again label' greedy body =>
      cases greedy with
      | true =>
        obtain ⟨rfl, rfl, rfl⟩ := Step.fork.inj h
        exact .greedy
      | false =>
        obtain ⟨rfl, rfl, rfl⟩ := Step.fork.inj h
        exact .lazy
    | assert condition =>
      rw [step] at h
      split at h <;> cases h
    | _ => cases h
  · intro h
    cases h <;> rfl

end

/-- What a thread does next. -/
inductive Move
  | done
  | wait
  | dead
  | go (next : Thread)
  | fork (label : Nat) (first second : Thread)

namespace Thread

/-- What a thread does next at a place. -/
def move (before after : Option Char) (offset : Nat) (thread : Thread) : Move :=
  match thread.goals with
  | [] => .done
  | .close name start :: goals => .go ((thread.withGoals goals).record name ⟨start, offset⟩)
  | .run node :: goals =>
    match node.step before after offset with
    | .wait => .wait
    | .dead => .dead
    | .go new => .go (thread.withGoals (new ++ goals))
    | .fork label first second =>
      .fork label (thread.withGoals (first ++ goals)) (thread.withGoals (second ++ goals))

end Thread

/-- A step of `settle`. -/
theorem settle_succ (before after : Option Char) (offset fuel : Nat) (passed : Std.HashSet Nat)
    (waiting : List Thread) (thread : Thread) (others : List Thread) :
    settle before after offset (fuel + 1) passed waiting (thread :: others) =
      match thread.move before after offset with
      | .done => (waiting.reverse, some ⟨⟨thread.start, offset⟩, thread.captures⟩)
      | .wait => settle before after offset fuel passed (thread :: waiting) others
      | .dead => settle before after offset fuel passed waiting others
      | .go next => settle before after offset fuel passed waiting (next :: others)
      | .fork label first second =>
        if passed.contains label then settle before after offset fuel passed waiting others
        else
          settle before after offset fuel (passed.insert label) waiting
            (first :: second :: others) := by
  obtain ⟨start, captures, goals⟩ := thread
  rw [settle, Thread.move]
  rcases goals with _ | ⟨_ | ⟨name, begun⟩, goals⟩
  · rfl
  · next node =>
    cases node with
    | assert condition =>
      dsimp only [Node.step]
      split <;> rfl
    | again label greedy body =>
      dsimp only [Node.step]
      cases greedy <;> rfl
    | _ => rfl
  · rfl

/-! ### What a thread leads to -/

namespace Goal

/-- The node that the goal runs. -/
def node? : Goal → Option Node
  | run node => some node
  | close _ _ => none

/-- Whether the goal ends a group. -/
def isClose : Goal → Bool
  | run _ => false
  | close _ _ => true

end Goal

/-- The nodes that goals run. -/
def nodesOf (goals : List Goal) : List Node :=
  goals.filterMap Goal.node?

@[simp] theorem nodesOf_nil : nodesOf [] = [] := rfl

@[simp] theorem nodesOf_run (node : Node) (goals : List Goal) :
    nodesOf (.run node :: goals) = node :: nodesOf goals := rfl

@[simp] theorem nodesOf_close (name : String) (start : Nat) (goals : List Goal) :
    nodesOf (.close name start :: goals) = nodesOf goals := rfl

@[simp] theorem nodesOf_append (first second : List Goal) :
    nodesOf (first ++ second) = nodesOf first ++ nodesOf second :=
  List.filterMap_append

namespace Thread

/-- The nodes that a thread still has to run. -/
def nodes (thread : Thread) : List Node :=
  nodesOf thread.goals

/-- The move of a thread at a place in a text. -/
def moveAt (place : Cursor) (thread : Thread) : Move :=
  thread.move place.before place.rest.head? place.offset

/-- The match that a thread leads to when it is followed alone from a place, the
preferred ways first; `none` if all ways fail. -/
inductive Yields : Cursor → Thread → Option Match → Prop
  | done {place : Cursor} {thread : Thread} (move : thread.moveAt place = .done) :
    Yields place thread (some ⟨⟨thread.start, place.offset⟩, thread.captures⟩)
  | dead {place : Cursor} {thread : Thread} (move : thread.moveAt place = .dead) :
    Yields place thread none
  | go {place : Cursor} {thread next : Thread} {result : Option Match}
    (move : thread.moveAt place = .go next) (h : Yields place next result) :
    Yields place thread result
  | stuck {place : Cursor} {thread : Thread} (move : thread.moveAt place = .wait)
    (h : ∀ c ∈ place.rest.head?, thread.consume? c = none) : Yields place thread none
  | consume {place : Cursor} {thread next : Thread} {c : Char} {rest : List Char}
    {result : Option Match} (move : thread.moveAt place = .wait) (hrest : place.rest = c :: rest)
    (hc : thread.consume? c = some next)
    (h : Yields ⟨some c, place.offset + c.utf8Size, rest⟩ next result) :
    Yields place thread result
  | first {place : Cursor} {thread first second : Thread} {label : Nat} {found : Match}
    (move : thread.moveAt place = .fork label first second)
    (h : Yields place first (some found)) : Yields place thread (some found)
  | second {place : Cursor} {thread first second : Thread} {label : Nat} {result : Option Match}
    (move : thread.moveAt place = .fork label first second)
    (h : Yields place first none) (h' : Yields place second result) : Yields place thread result

variable {place : Cursor} {thread next first second : Thread} {label : Nat}
  {result result' : Option Match}

theorem yields_done (move : thread.moveAt place = .done) :
    Yields place thread result ↔ result = some ⟨⟨thread.start, place.offset⟩, thread.captures⟩ := by
  constructor
  · intro h
    cases h <;> simp_all
  · rintro rfl
    exact .done move

theorem yields_dead (move : thread.moveAt place = .dead) :
    Yields place thread result ↔ result = none := by
  constructor
  · intro h
    cases h <;> simp_all
  · rintro rfl
    exact .dead move

theorem yields_go (move : thread.moveAt place = .go next) :
    Yields place thread result ↔ Yields place next result := by
  refine ⟨fun h => ?_, .go move⟩
  cases h with
  | go move' h =>
    obtain rfl := Move.go.inj (move.symm.trans move')
    exact h
  | _ => simp_all

theorem yields_fork (move : thread.moveAt place = .fork label first second) :
    Yields place thread result ↔
      (∃ found, result = some found ∧ Yields place first (some found)) ∨
        Yields place first none ∧ Yields place second result := by
  constructor
  · intro h
    cases h with
    | first move' h =>
      obtain ⟨-, rfl, rfl⟩ := Move.fork.inj (move.symm.trans move')
      exact Or.inl ⟨_, rfl, h⟩
    | second move' h h' =>
      obtain ⟨-, rfl, rfl⟩ := Move.fork.inj (move.symm.trans move')
      exact Or.inr ⟨h, h'⟩
    | _ => simp_all
  · rintro (⟨found, rfl, h⟩ | ⟨h, h'⟩)
    · exact .first move h
    · exact .second move h h'

theorem yields_stuck (move : thread.moveAt place = .wait)
    (hs : ∀ c ∈ place.rest.head?, thread.consume? c = none) :
    Yields place thread result ↔ result = none := by
  constructor
  · intro h
    cases h <;> simp_all
  · rintro rfl
    exact .stuck move hs

theorem yields_consume {c : Char} {rest : List Char} (move : thread.moveAt place = .wait)
    (hrest : place.rest = c :: rest) (hc : thread.consume? c = some next) :
    Yields place thread result ↔
      Yields ⟨some c, place.offset + c.utf8Size, rest⟩ next result := by
  refine ⟨fun h => ?_, .consume move hrest hc⟩
  cases h with
  | consume move' hrest' hc' h =>
    obtain ⟨rfl, rfl⟩ := List.cons.inj (hrest.symm.trans hrest')
    obtain rfl := Option.some.inj (hc.symm.trans hc')
    exact h
  | _ => simp_all

/-- A thread leads to one match only. -/
theorem Yields.unique (h : Yields place thread result) (h' : Yields place thread result') :
    result = result' := by
  induction h generalizing result' with
  | done move => exact ((yields_done move).1 h').symm
  | dead move => exact ((yields_dead move).1 h').symm
  | go move _ ih => exact ih ((yields_go move).1 h')
  | stuck move hs => exact ((yields_stuck move hs).1 h').symm
  | consume move hrest hc _ ih => exact ih ((yields_consume move hrest hc).1 h')
  | first move _ ih =>
    rcases (yields_fork move).1 h' with ⟨found, rfl, h⟩ | ⟨h, -⟩
    · exact ih h
    · exact absurd (ih h) (by simp)
  | second move _ _ ih ih2 =>
    rcases (yields_fork move).1 h' with ⟨found, rfl, h⟩ | ⟨-, h⟩
    · exact absurd (ih h) (by simp)
    · exact ih2 h

end Thread

/-! ### Words -/

theorem spellsAll_append (first second : List Node) :
    spellsAll (first ++ second) = (spellsAll first).seq (spellsAll second) := by
  induction first with
  | nil => rw [List.nil_append, spellsAll, nothing_seq]
  | cons node first ih => rw [List.cons_append, spellsAll, spellsAll, ih, seq_assoc]

section Spells

variable {before : Option Char} {word after : List Char} {offset : Nat} {node : Node}

/-- A node has the words of what it goes on with. -/
theorem Node.spells_of_go {goals : List Goal} {language : Language}
    (h : node.step before (word ++ after).head? offset = .go goals) :
    (node.Spells.seq language) before word after ↔
      ((spellsAll (nodesOf goals)).seq language) before word after := by
  cases step_eq_go_iff.1 h with
  | empty => rfl
  | assert hc =>
    rw [nodesOf_nil, spellsAll, nothing_seq]
    constructor
    · rintro ⟨u, v, rfl, ⟨rfl, -⟩, h⟩
      exact h
    · intro h
      exact ⟨[], word, rfl, ⟨rfl, hc⟩, h⟩
  | group => simp [Node.Spells, spellsAll]
  | seq => simp [Node.Spells, spellsAll]
  | atLeastOnce => simp [spells_atLeastOnce, spellsAll]

theorem Node.not_spells_of_dead {language : Language}
    (h : node.step before (word ++ after).head? offset = .dead) :
    ¬ (node.Spells.seq language) before word after := by
  obtain ⟨condition, rfl, hc⟩ := step_eq_dead_iff.1 h
  rintro ⟨u, v, rfl, ⟨rfl, hc'⟩, -⟩
  exact hc hc'

/-- A node that forks has the words of either way. -/
theorem Node.spells_of_fork {label : Nat} {first second : List Goal} {language : Language}
    (h : node.step before (word ++ after).head? offset = .fork label first second) :
    (node.Spells.seq language) before word after ↔
      ((spellsAll (nodesOf first)).seq language) before word after ∨
        ((spellsAll (nodesOf second)).seq language) before word after := by
  cases step_eq_fork_iff.1 h with
  | choice =>
    simp only [nodesOf_run, nodesOf_nil, spellsAll, seq_nothing, Node.Spells, or_seq]
    rfl
  | greedy =>
    rw [spells_again, or_seq, seq_assoc, nothing_seq]
    simp only [nodesOf_run, nodesOf_nil, spellsAll, seq_nothing, nothing_seq, seq_assoc]
    rfl
  | lazy =>
    rw [spells_again, or_seq, seq_assoc, nothing_seq]
    simp only [nodesOf_run, nodesOf_nil, spellsAll, seq_nothing, nothing_seq, seq_assoc]
    exact Or.comm

end Spells

namespace Thread

variable {place : Cursor} {thread next first second : Thread} {label : Nat}

theorem moveAt_done (h : thread.moveAt place = .done) : thread.goals = [] := by
  rw [moveAt, move] at h
  split at h
  · assumption
  · simp at h
  · split at h <;> simp at h

theorem moveAt_wait (h : thread.moveAt place = .wait) :
    ∃ set goals, thread.goals = .run (.one set) :: goals := by
  rw [moveAt, move] at h
  split at h
  · simp at h
  · simp at h
  · next node goals hg =>
    split at h
    · next hs =>
      obtain ⟨set, rfl⟩ := Node.step_eq_wait_iff.1 hs
      exact ⟨set, goals, hg⟩
    all_goals simp at h

theorem moveAt_dead (h : thread.moveAt place = .dead) :
    ∃ node goals, thread.goals = .run node :: goals ∧
      node.step place.before place.rest.head? place.offset = .dead := by
  rw [moveAt, move] at h
  split at h
  · simp at h
  · simp at h
  · next node goals hg => 
    split at h
    · simp at h
    · next hs => exact ⟨node, goals, hg, hs⟩
    all_goals simp at h

/-- A thread goes on by closing a group or by running a node. -/
theorem moveAt_go (h : thread.moveAt place = .go next) :
    (∃ name start goals, thread.goals = .close name start :: goals ∧
      next = (thread.withGoals goals).record name ⟨start, place.offset⟩) ∨
    ∃ node goals new, thread.goals = .run node :: goals ∧
      node.step place.before place.rest.head? place.offset = .go new ∧
      next = thread.withGoals (new ++ goals) := by
  rw [moveAt, move] at h
  split at h
  · simp at h
  · next name start goals hg => exact Or.inl ⟨name, start, goals, hg, (Move.go.inj h).symm⟩
  · next node goals hg =>
    split at h
    · simp at h
    · simp at h
    · next new hs => exact Or.inr ⟨node, goals, new, hg, hs, (Move.go.inj h).symm⟩
    · simp at h

theorem moveAt_fork (h : thread.moveAt place = .fork label first second) :
    ∃ node goals new new', thread.goals = .run node :: goals ∧
      node.step place.before place.rest.head? place.offset = .fork label new new' ∧
      first = thread.withGoals (new ++ goals) ∧ second = thread.withGoals (new' ++ goals) := by
  rw [moveAt, move] at h
  split at h
  · simp at h
  · simp at h
  · next node goals hg =>
    split at h
    · simp at h
    · simp at h
    · simp at h
    · next new new' hs =>
      obtain ⟨rfl, rfl, rfl⟩ := Move.fork.inj h
      exact ⟨node, goals, new, new', hg, hs, rfl, rfl⟩

/-- A word that the nodes of a thread have at a place. -/
def SpellsAt (place : Cursor) (thread : Thread) (word after : List Char) : Prop :=
  place.rest = word ++ after ∧ spellsAll thread.nodes place.before word after

variable {word after : List Char}

theorem spellsAt_of_done (h : thread.moveAt place = .done) :
    thread.SpellsAt place [] place.rest := by
  refine ⟨rfl, ?_⟩
  rw [nodes, moveAt_done h]
  rfl

theorem spellsAt_of_go (h : thread.moveAt place = .go next) :
    thread.SpellsAt place word after ↔ next.SpellsAt place word after := by
  refine and_congr_right fun hrest => ?_
  rcases moveAt_go h with ⟨name, start, goals, hg, rfl⟩ | ⟨node, goals, new, hg, hs, rfl⟩
  · rw [nodes, hg]
    rfl
  · rw [hrest] at hs
    rw [nodes, hg, nodesOf_run, spellsAll, Node.spells_of_go hs, ← spellsAll_append,
      ← nodesOf_append]
    rfl

theorem not_spellsAt_of_dead (h : thread.moveAt place = .dead) :
    ¬ thread.SpellsAt place word after := by
  rintro ⟨hrest, hw⟩
  obtain ⟨node, goals, hg, hs⟩ := moveAt_dead h
  rw [hrest] at hs
  rw [nodes, hg, nodesOf_run, spellsAll] at hw
  exact Node.not_spells_of_dead hs hw

theorem spellsAt_of_fork (h : thread.moveAt place = .fork label first second) :
    thread.SpellsAt place word after ↔
      first.SpellsAt place word after ∨ second.SpellsAt place word after := by
  rw [SpellsAt, SpellsAt, SpellsAt, ← and_or_left]
  refine and_congr_right fun hrest => ?_
  obtain ⟨node, goals, new, new', hg, hs, rfl, rfl⟩ := moveAt_fork h
  rw [hrest] at hs
  rw [nodes, hg, nodesOf_run, spellsAll, Node.spells_of_fork hs, ← spellsAll_append,
    ← spellsAll_append, ← nodesOf_append, ← nodesOf_append]
  rfl

theorem consume?_eq_some {c : Char} (h : thread.consume? c = some next) :
    ∃ set goals, thread.goals = .run (.one set) :: goals ∧ set.contains c = true ∧
      next = thread.withGoals goals := by
  rw [consume?] at h
  split at h
  · next set goals hg =>
    split at h
    · next hc => exact ⟨set, goals, hg, hc, (Option.some.inj h).symm⟩
    · simp at h
  · simp at h

/-- A thread that waits has the words that begin with a character that it
consumes. -/
theorem spellsAt_of_wait (h : thread.moveAt place = .wait) :
    thread.SpellsAt place word after ↔
      ∃ c tail next, word = c :: tail ∧ place.rest = c :: (tail ++ after) ∧
        thread.consume? c = some next ∧
        next.SpellsAt ⟨some c, place.offset + c.utf8Size, tail ++ after⟩ tail after := by
  obtain ⟨set, goals, hg⟩ := moveAt_wait h
  constructor
  · rintro ⟨hrest, hw⟩
    rw [nodes, hg, nodesOf_run, spellsAll] at hw
    obtain ⟨_, tail, rfl, ⟨c, rfl, hc⟩, hw⟩ := hw
    refine ⟨c, tail, thread.withGoals goals, rfl, hrest, ?_, rfl, hw⟩
    rw [consume?, hg]
    exact if_pos hc
  · rintro ⟨c, tail, next, rfl, hrest, hn, -, hw⟩
    obtain ⟨set', goals', hg', hc, rfl⟩ := consume?_eq_some hn
    refine ⟨hrest, ?_⟩
    rw [nodes, hg', nodesOf_run, spellsAll]
    exact ⟨[c], tail, rfl, ⟨c, rfl, hc⟩, hw⟩

/-- A match covers a word of the nodes of the thread. -/
theorem Yields.spells {result : Option Match} (h : Yields place thread result) :
    ∀ found, result = some found → ∃ word after, thread.SpellsAt place word after ∧
      found.span = ⟨thread.start, place.offset + Text.byteLength word⟩ := by
  induction h with
  | @done place thread move =>
    rintro _ ⟨⟩
    exact ⟨[], place.rest, spellsAt_of_done move, rfl⟩
  | dead move => simp
  | @go place thread next result move h ih =>
    intro found hf
    obtain ⟨word, after, hw, hspan⟩ := ih found hf
    refine ⟨word, after, (spellsAt_of_go move).2 hw, ?_⟩
    rcases moveAt_go move with ⟨name, start, goals, hg, rfl⟩ | ⟨node, goals, new, hg, hs, rfl⟩ <;>
      exact hspan
  | stuck move hs => simp
  | @consume place thread next c rest result move hrest hc h ih =>
    intro found hf
    obtain ⟨word, after, ⟨rfl, hw⟩, hspan⟩ := ih found hf
    refine ⟨c :: word, after, ?_, ?_⟩
    · exact (spellsAt_of_wait move).2 ⟨c, word, next, rfl, hrest, hc, rfl, hw⟩
    · obtain ⟨set, goals, hg, -, rfl⟩ := consume?_eq_some hc
      rw [hspan, Text.byteLength, ← Nat.add_assoc]
      rfl
  | first move h ih =>
    intro found hf
    obtain ⟨word, after, hw, hspan⟩ := ih found hf
    refine ⟨word, after, (spellsAt_of_fork move).2 (Or.inl hw), ?_⟩
    obtain ⟨node, goals, new, new', hg, hs, rfl, rfl⟩ := moveAt_fork move
    exact hspan
  | second move h h' ih ih' =>
    intro found hf
    obtain ⟨word, after, hw, hspan⟩ := ih' found hf
    refine ⟨word, after, (spellsAt_of_fork move).2 (Or.inr hw), ?_⟩
    obtain ⟨node, goals, new, new', hg, hs, rfl, rfl⟩ := moveAt_fork move
    exact hspan

/-- Where a thread leads to no match, no word of its nodes stands. -/
theorem Yields.not_spells {result : Option Match} (h : Yields place thread result) :
    result = none → ∀ word after, ¬ thread.SpellsAt place word after := by
  induction h with
  | done move => simp
  | dead move => exact fun _ word after => not_spellsAt_of_dead move
  | go move h ih => exact fun hr word after hw => ih hr word after ((spellsAt_of_go move).1 hw)
  | stuck move hs =>
    intro _ word after hw
    obtain ⟨c, tail, next, -, hrest, hn, -⟩ := (spellsAt_of_wait move).1 hw
    rw [hs c (by rw [hrest]; rfl)] at hn
    simp at hn
  | consume move hrest hc h ih =>
    intro hr word after hw
    obtain ⟨d, tail, other, -, hrest', hn, hw'⟩ := (spellsAt_of_wait move).1 hw
    obtain ⟨rfl, rfl⟩ := List.cons.inj (hrest.symm.trans hrest')
    obtain rfl := Option.some.inj (hc.symm.trans hn)
    exact ih hr tail after hw'
  | first move h ih => simp
  | second move h h' ih ih' =>
    intro hr word after hw
    rcases (spellsAt_of_fork move).1 hw with hw | hw
    · exact ih rfl word after hw
    · exact ih' hr word after hw

end Thread

/-! ### Threads come to an end -/

/-- How far a node goes without a character, if every round of a starred body
consumes one. -/
def Node.depth : Node → Nat
  | empty | one _ | assert _ => 1
  | group _ body => body.depth + 2
  | seq a b => if a.matchesNothing then a.depth + b.depth + 1 else a.depth + 1
  | choice _ a b => a.depth + b.depth + 1
  | again _ _ body | atLeastOnce _ _ body => body.depth + 1

/-- How far nodes go without a character. -/
def depthAll : List Node → Nat
  | [] => 0
  | node :: nodes => node.depth + if node.matchesNothing then depthAll nodes else 0

/-- How far goals go without a character, closing groups included. -/
def effortOf (goals : List Goal) : Nat :=
  depthAll (nodesOf goals) + goals.countP Goal.isClose

/-- A node goes less far after a step. -/
theorem Node.depth_of_go {before after : Option Char} {offset : Nat} {node : Node}
    {goals : List Goal} (hc : node.starsConsume = true)
    (h : node.step before after offset = .go goals) (others : List Goal) :
    effortOf (goals ++ others) < effortOf (.run node :: others) ∧
      depthAll (nodesOf (goals ++ others)) ≤ depthAll (node :: nodesOf others) ∧
      ∀ n ∈ nodesOf goals, n.starsConsume = true := by
  cases step_eq_go_iff.1 h with
  | empty => simp [effortOf, depthAll, depth, matchesNothing, Goal.isClose]
  | assert _ => simp [effortOf, depthAll, depth, matchesNothing, Goal.isClose]
  | @group _ body =>
    rw [starsConsume] at hc
    cases hb : body.matchesNothing <;>
      simp [effortOf, depthAll, depth, matchesNothing, Goal.isClose, List.countP_cons, hb, hc] <;>
      omega
  | @seq a b =>
    simp only [starsConsume, Bool.and_eq_true] at hc
    cases ha : a.matchesNothing <;> cases hb : b.matchesNothing <;>
      simp [effortOf, depthAll, depth, matchesNothing, Goal.isClose, ha, hb, hc] <;> omega
  | atLeastOnce =>
    simp only [starsConsume, Bool.and_eq_true, Bool.not_eq_true'] at hc
    simp [effortOf, depthAll, depth, matchesNothing, Goal.isClose, starsConsume, hc]

theorem Node.depth_of_fork {before after : Option Char} {offset label : Nat} {node : Node}
    {first second : List Goal} (hc : node.starsConsume = true)
    (h : node.step before after offset = .fork label first second) (others : List Goal) :
    ∀ goals ∈ [first, second],
      effortOf (goals ++ others) < effortOf (.run node :: others) ∧
      depthAll (nodesOf (goals ++ others)) < depthAll (node :: nodesOf others) ∧
      ∀ n ∈ nodesOf goals, n.starsConsume = true := by
  have hstar : ∀ (label : Nat) (greedy : Bool) (body : Node),
      (again label greedy body).starsConsume = true →
      ∀ goals ∈ [[Goal.run body, .run (again label greedy body)], []],
        effortOf (goals ++ others) < effortOf (.run (again label greedy body) :: others) ∧
        depthAll (nodesOf (goals ++ others)) <
          depthAll (again label greedy body :: nodesOf others) ∧
        ∀ n ∈ nodesOf goals, n.starsConsume = true := by
    intro label greedy body hc goals hg
    have hbody := hc
    simp only [starsConsume, Bool.and_eq_true, Bool.not_eq_true'] at hbody
    simp only [List.mem_cons, List.not_mem_nil, or_false] at hg
    rcases hg with rfl | rfl
    · simp [effortOf, depthAll, depth, matchesNothing, Goal.isClose, hbody, hc]
      omega
    · simp [effortOf, depthAll, depth, matchesNothing, Goal.isClose]
  cases step_eq_fork_iff.1 h with
  | @choice _ a b =>
    simp only [starsConsume, Bool.and_eq_true] at hc
    intro goals hg
    simp only [List.mem_cons, List.not_mem_nil, or_false] at hg
    rcases hg with rfl | rfl <;> cases ha : a.matchesNothing <;> cases hb : b.matchesNothing <;>
      simp [effortOf, depthAll, depth, matchesNothing, Goal.isClose, ha, hb, hc] <;> omega
  | greedy => exact hstar _ _ _ hc
  | lazy =>
    intro goals hg
    exact hstar _ _ _ hc goals (by simpa using Or.comm.1 (by simpa using hg))

namespace Thread

variable {place : Cursor} {thread next first second : Thread} {label : Nat}

/-- All rounds of starred bodies that the thread has before it consume characters. -/
def Progresses (thread : Thread) : Prop :=
  ∀ node ∈ thread.nodes, node.starsConsume = true

theorem Progresses.of_append {node : Node} {goals : List Goal} (h : thread.Progresses)
    (hg : thread.goals = .run node :: goals) (new : List Goal) (hn : ∀ n ∈ nodesOf new, n.starsConsume = true) :
    (thread.withGoals (new ++ goals)).Progresses := by
  intro n hm
  rw [nodes, withGoals, nodesOf_append, List.mem_append] at hm
  rcases hm with hm | hm
  · exact hn n hm
  · exact h n (by rw [nodes, hg, nodesOf_run]; exact List.mem_cons_of_mem _ hm)

theorem Progresses.head {node : Node} {goals : List Goal} (h : thread.Progresses)
    (hg : thread.goals = .run node :: goals) : node.starsConsume = true :=
  h node (by rw [nodes, hg, nodesOf_run]; exact List.mem_cons_self)

/-- Going on, a thread has less before it. -/
theorem Progresses.go (h : thread.Progresses) (hm : thread.moveAt place = .go next) :
    effortOf next.goals < effortOf thread.goals ∧
      depthAll next.nodes ≤ depthAll thread.nodes ∧ next.Progresses := by
  rcases moveAt_go hm with ⟨name, start, goals, hg, rfl⟩ | ⟨node, goals, new, hg, hs, rfl⟩
  · refine ⟨?_, by rw [nodes, nodes, hg]; rfl, ?_⟩
    · rw [hg, effortOf, effortOf]
      simp [record, withGoals, Goal.isClose, List.countP_cons]
    · intro n hn
      exact h n (by rw [nodes, hg]; exact hn)
  · obtain ⟨h1, h2, h3⟩ := Node.depth_of_go (h.head hg) hs goals
    refine ⟨by rw [hg]; exact h1, ?_, h.of_append hg _ h3⟩
    rw [nodes, nodes, hg]
    exact h2

/-- Each of two ways of a thread has less before it than the thread. -/
theorem Progresses.fork (h : thread.Progresses)
    (hm : thread.moveAt place = .fork label first second) :
    ∀ next ∈ [first, second], effortOf next.goals < effortOf thread.goals ∧
      depthAll next.nodes < depthAll thread.nodes ∧ next.Progresses := by
  obtain ⟨node, goals, new, new', hg, hs, rfl, rfl⟩ := moveAt_fork hm
  have key := Node.depth_of_fork (h.head hg) hs goals
  have hnext : ∀ way ∈ [new, new'], effortOf (thread.withGoals (way ++ goals)).goals <
        effortOf thread.goals ∧
      depthAll (thread.withGoals (way ++ goals)).nodes < depthAll thread.nodes ∧
      (thread.withGoals (way ++ goals)).Progresses := by
    intro way hw
    obtain ⟨h1, h2, h3⟩ := key way hw
    refine ⟨by rw [hg]; exact h1, ?_, h.of_append hg _ h3⟩
    rw [nodes, nodes, hg]
    exact h2
  intro next hn
  simp only [List.mem_cons, List.not_mem_nil, or_false] at hn
  rcases hn with rfl | rfl
  · exact hnext new (by simp)
  · exact hnext new' (by simp)

theorem Progresses.consume {c : Char} (h : thread.Progresses) (hc : thread.consume? c = some next) :
    next.Progresses := by
  obtain ⟨set, goals, hg, -, rfl⟩ := consume?_eq_some hc
  exact h.of_append hg [] (by simp)

/-- A thread comes to an end. -/
theorem exists_yields (n : Nat) : ∀ (effort : Nat) (place : Cursor) (thread : Thread),
    place.rest.length = n → effortOf thread.goals = effort → thread.Progresses →
      ∃ result, thread.Yields place result := by
  induction n using Nat.strong_induction_on with
  | _ n ihn =>
    intro effort
    induction effort using Nat.strong_induction_on with
    | _ effort ih =>
      rintro place thread rfl rfl h
      cases hm : thread.moveAt place with
      | done => exact ⟨_, .done hm⟩
      | dead => exact ⟨_, .dead hm⟩
      | wait =>
        cases hr : place.rest with
        | nil => exact ⟨_, .stuck hm (by simp [hr])⟩
        | cons c rest =>
          cases hc : thread.consume? c with
          | none => exact ⟨_, .stuck hm (by simpa [hr] using hc)⟩
          | some next =>
            obtain ⟨result, hy⟩ := ihn rest.length (by simp [hr]) _
              ⟨some c, place.offset + c.utf8Size, rest⟩ next rfl rfl (h.consume hc)
            exact ⟨result, .consume hm hr hc hy⟩
      | go next =>
        obtain ⟨h1, -, h3⟩ := h.go hm
        obtain ⟨result, hy⟩ := ih _ h1 place next rfl rfl h3
        exact ⟨result, .go hm hy⟩
      | fork label first second =>
        obtain ⟨h1, -, h3⟩ := h.fork hm first (by simp)
        obtain ⟨result, hy⟩ := ih _ h1 place first rfl rfl h3
        cases result with
        | some found => exact ⟨_, .first hm hy⟩
        | none =>
          obtain ⟨h1, -, h3⟩ := h.fork hm second (by simp)
          obtain ⟨result, hy'⟩ := ih _ h1 place second rfl rfl h3
          exact ⟨result, .second hm hy hy'⟩

/-- A thread leads to a match as soon as a word of its nodes stands. -/
theorem exists_yields_some (h : thread.Progresses) {word after : List Char}
    (hw : thread.SpellsAt place word after) : ∃ found, thread.Yields place (some found) := by
  obtain ⟨_ | found, hy⟩ := exists_yields _ _ place thread rfl rfl h
  · exact absurd hw (hy.not_spells rfl word after)
  · exact ⟨found, hy⟩

end Thread

end StyleTokens
